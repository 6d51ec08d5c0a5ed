import TwoWayGrammar.Definition.Build

namespace TwoWayGrammar

namespace Run

variable {α : Type}

/-- Items are written from the last to the first, each in front of those after it. -/
def writeEach (item : α → Input → Run Input) : List α → Input → Run Input
  | [], rest => return rest
  | value :: values, rest => do
    let after ← writeEach item values rest
    item value after

end Run

namespace Grammar

/-- Writing by structure. A value of another shape than the grammar's is a fault. -/
def writeWith (enter : Grammar → Value → Input → Run Input) :
    Grammar → Value → Input → Run Input
  | primitive base => fun value rest => Run.orStop (base.write? value rest) .shape
  | adapt prism body => fun value rest => body.writeWith enter (prism.review value) rest
  | sequence first second => fun value rest =>
    match value with
    | .pair firstValue secondValue => do
      let after ← second.writeWith enter secondValue rest
      first.writeWith enter firstValue after
    | _ => Run.stop .shape
  | thenDiscard body mark => fun value rest => do
    let after ← mark.writeWith enter .unit rest
    body.writeWith enter value after
  | discardThen mark body => fun value rest => do
    let after ← body.writeWith enter value rest
    mark.writeWith enter .unit after
  | choice first second => fun value rest =>
    match value with
    | .left content => first.writeWith enter content rest
    | .right content => second.writeWith enter content rest
    | _ => Run.stop .shape
  | many body => fun value rest =>
    match value with
    | .list values => Run.writeEach (body.writeWith enter) values rest
    | _ => Run.stop .shape
  | replicate _ count body => fun value rest =>
    match value with
    | .list values => Run.writeEach (body.writeWith enter) (values.take count) rest
    | _ => Run.stop .shape
  | dependent determinant next extract _ => fun value rest => do
    let after ← (next (extract value)).writeWith enter value rest
    determinant.writeWith enter (extract value) after
  | withDefault default body => fun value rest =>
    if value = default then return rest else body.writeWith enter value rest
  | opt body => fun value rest =>
    match value with
    | .absent => return rest
    | .present content => body.writeWith enter content rest
    | _ => Run.stop .shape
  | traced name body => fun value rest =>
    Run.traced "construct".toList name (fun _ => true) (body.writeWith enter value rest)
  | shared cell => fun value rest => do
    enter (← Run.resolve cell) value rest
  | handle cell => fun value rest => Run.holding {cell} do
    enter (← Run.resolve cell) value rest

/-- Writing with fuel for nested entries into cells. -/
def write : (fuel : Nat) → Grammar → Value → Input → Run Input
  | 0 => writeWith fun _ _ _ => Run.diverge
  | fuel + 1 => writeWith (write fuel)

/-- Printing writes in front of nothing. -/
def print (fuel : Nat) (grammar : Grammar) (value : Value) : Run Input :=
  grammar.write fuel value []

end Grammar

end TwoWayGrammar
