import TwoWayGrammar.Definition.Build

/-! Each entry into a cell spends one unit of fuel, and so does each item of a loop that takes no atom
off. -/

namespace TwoWayGrammar

namespace Run

variable {α β : Type}

/-- A success goes on with its value and remainder, and a failure stays a failure. -/
def onSuccess (found : Run (Match α)) (next : α → Input → Run (Match β)) : Run (Match β) := do
  match ← found with
  | .success value rest => next value rest
  | .failure rest => return .failure rest

/-- A failure goes on with the other run, and a success stays a success. -/
def onFailure (found other : Run (Match α)) : Run (Match α) := do
  match ← found with
  | .success value rest => return .success value rest
  | .failure _ => other

/-- Reading as often as possible ends where the failed attempt began. The attempts are limited, and
a loop that needs more of them never ends. -/
def readMany (item : Input → Run (Match α)) : Nat → Input → Run (List α × Input)
  | 0, _ => diverge
  | attempts + 1, input => do
    match ← item input with
    | .success value rest =>
      let (values, last) ← readMany item attempts rest
      return (value :: values, last)
    | .failure _ => return ([], input)

/-- Reading a fixed number of times fails where one of them fails. -/
def readTimes (item : Input → Run (Match α)) : Nat → Input → Run (Match (List α))
  | 0, input => return .success [] input
  | times + 1, input =>
    onSuccess (item input) fun value rest =>
      onSuccess (readTimes item times rest) fun values last =>
        return .success (value :: values) last

end Run

namespace Grammar

/-- Reading by structure. A count beyond the capacity of a list is refused before anything is read. A loop
whose items each take an atom off makes at most one attempt more than there are atoms. Items that take
nothing off can still stop the run, by what they write or release, so a loop waits for that as often as its
patience allows. -/
def readWith (patience : Nat) (enter : Grammar → Input → Run (Match Value)) :
    Grammar → Input → Run (Match Value)
  | primitive base => fun input => return base.read input
  | adapt prism body => fun input =>
    Run.onSuccess (body.readWith patience enter input) fun representation rest =>
      match prism.preview representation with
      | some value => return .success value rest
      | none => return .failure rest
  | sequence first second => fun input =>
    Run.onSuccess (first.readWith patience enter input) fun firstValue rest =>
      Run.onSuccess (second.readWith patience enter rest) fun secondValue last =>
        return .success (.pair firstValue secondValue) last
  | thenDiscard body mark => fun input =>
    Run.onSuccess (body.readWith patience enter input) fun value rest =>
      Run.onSuccess (mark.readWith patience enter rest) fun _ last =>
        return .success value last
  | discardThen mark body => fun input =>
    Run.onSuccess (mark.readWith patience enter input) fun _ rest =>
      body.readWith patience enter rest
  | choice first second => fun input =>
    Run.onFailure
      (Run.onSuccess (first.readWith patience enter input) fun value rest =>
        return .success (.left value) rest)
      (Run.onSuccess (second.readWith patience enter input) fun value rest =>
        return .success (.right value) rest)
  | many body => fun input => do
    let attempts := input.length + 1 + patience
    let (values, rest) ← Run.readMany (body.readWith patience enter) attempts input
    return .success (.list values) rest
  | replicate capacity count body => fun input =>
    if capacity.items < count then
      Run.stop (.overlong count)
    else
      Run.onSuccess (Run.readTimes (body.readWith patience enter) count input) fun values rest =>
        return .success (.list values) rest
  | dependent determinant next _ _ => fun input =>
    Run.onSuccess (determinant.readWith patience enter input) fun value rest =>
      (next value).readWith patience enter rest
  | withDefault default body => fun input =>
    Run.onFailure (body.readWith patience enter input) (return .success default input)
  | opt body => fun input =>
    Run.onFailure
      (Run.onSuccess (body.readWith patience enter input) fun value rest =>
        return .success (.present value) rest)
      (return .success .absent input)
  | traced name body => fun input =>
    Run.traced "match".toList name Match.accepted (body.readWith patience enter input)
  | shared cell => fun input => do
    enter (← Run.resolve cell) input
  | handle cell => fun input => Run.holding {cell} do
    enter (← Run.resolve cell) input

/-- Reading with fuel for nested entries into cells and for loops. -/
def read : (fuel : Nat) → Grammar → Input → Run (Match Value)
  | 0 => readWith 0 fun _ _ => Run.diverge
  | fuel + 1 => readWith (fuel + 1) (read fuel)

/-- Parsing keeps the value of a success. -/
def parse (fuel : Nat) (grammar : Grammar) (input : Input) : Run (Option Value) := do
  return (← grammar.read fuel input).value?

/-- Complete parsing reads the whole input. -/
def parseAll (fuel : Nat) (grammar : Grammar) (input : Input) : Run (Option Value) :=
  grammar.complete.parse fuel input

end Grammar

end TwoWayGrammar
