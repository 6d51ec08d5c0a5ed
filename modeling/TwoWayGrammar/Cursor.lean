import TwoWayGrammar.Atom

namespace TwoWayGrammar

/-- An edit prepends an atom, takes one off, or starts again from the empty input. -/
inductive CursorEdit where
  | cons (atom : Atom)
  | uncons
  | clear

/-- The answer to an edit shows the new input, the split, or that nothing was left to split. -/
inductive CursorAnswer where
  | holds (input : Input)
  | split (atom : Atom) (rest : Input)
  | exhausted

/-- An edit answers and leaves the next input. Splitting an empty input changes nothing. -/
def CursorEdit.apply (input : Input) : CursorEdit → CursorAnswer × Input
  | .cons atom => (.holds (atom :: input), atom :: input)
  | .clear => (.holds [], [])
  | .uncons =>
    match input.uncons with
    | none => (.exhausted, input)
    | some (atom, rest) => (.split atom rest, rest)

/-- The edits run one after the other, each on what the one before it left. -/
def CursorEdit.applyAll (input : Input) : List CursorEdit → List CursorAnswer
  | [] => []
  | edit :: edits =>
    let (answer, next) := edit.apply input
    answer :: applyAll next edits

/-- Taking off a prepended atom gives the atom and the input back. -/
theorem CursorEdit.applyAll_cons_uncons (input : Input) (atom : Atom) :
    applyAll input [.cons atom, .uncons] = [.holds (atom :: input), .split atom input] := rfl

end TwoWayGrammar
