import TwoWayGrammar.Fault

namespace TwoWayGrammar

/-- A success carries a value and the remainder. A failure carries only an input. -/
inductive Match (α : Type) where
  | success (value : α) (rest : Input)
  | failure (rest : Input)
  deriving DecidableEq

namespace Match

variable {α β : Type}

/-- A match is accepted when it is a success. -/
def accepted : Match α → Bool
  | .success _ _ => true
  | .failure _ => false

/-- Both kinds of match carry an input. -/
def rest : Match α → Input
  | .success _ rest => rest
  | .failure rest => rest

/-- A failure has no value. -/
def value? : Match α → Option α
  | .success value _ => some value
  | .failure _ => none

/-- Asking a failure for its value is a fault. -/
def value : Match α → Except GrammarFault α
  | .success value _ => .ok value
  | .failure _ => .error .failedMatch

/-- Mapping changes the value and keeps the input. -/
def map (change : α → β) : Match α → Match β
  | .success value rest => .success (change value) rest
  | .failure rest => .failure rest

@[simp] theorem rest_map (change : α → β) (found : Match α) :
    (found.map change).rest = found.rest := by
  cases found <;> rfl

@[simp] theorem accepted_map (change : α → β) (found : Match α) :
    (found.map change).accepted = found.accepted := by
  cases found <;> rfl

end Match

end TwoWayGrammar
