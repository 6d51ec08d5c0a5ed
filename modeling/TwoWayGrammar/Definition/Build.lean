import TwoWayGrammar.Run

namespace TwoWayGrammar

/-- A new cell is added to the store and its address returned. -/
def Run.newCell (cell : Cell) : Run Address := do
  let store ← Run.current
  Run.modify fun store => store.addCell cell
  return store.cells.length

/-- What a cell offers, or the fault of using it. -/
def Run.offer (address : Address) : Run (Grammar ⊕ Factory) := do
  match (← Run.current).offer address with
  | .ok offered => return offered
  | .error fault => Run.stop (.grammar fault)

namespace Definition

/-- Parts are built in order, from left to right. A recursive definition whose body fails is released
at once. -/
def build : Definition → Scope → Run Built
  | primitive base, _ => return .primitive base
  | adapt prism body, scope => return .wrap (.adapt prism) (fun _ => rfl) (← body.build scope)
  | sequence first second, scope =>
    return .join .sequence (fun _ _ => rfl) (← first.build scope) (← second.build scope)
  | thenDiscard body mark, scope =>
    return .join .thenDiscard (fun _ _ => rfl) (← body.build scope) (← mark.build scope)
  | discardThen mark body, scope =>
    return .join .discardThen (fun _ _ => rfl) (← mark.build scope) (← body.build scope)
  | between opening closing body, scope => do
    let opening ← opening.build scope
    let closing ← closing.build scope
    let body ← body.build scope
    return .join .discardThen (fun _ _ => rfl) opening
      (.join .thenDiscard (fun _ _ => rfl) body closing)
  | choice first second, scope =>
    return .join .choice (fun _ _ => rfl) (← first.build scope) (← second.build scope)
  | many body, scope => return .wrap .many (fun _ => rfl) (← body.build scope)
  | many1 body, scope => return .wrap .many1 Grammar.owned_many1 (← body.build scope)
  | replicate count body capacity, scope =>
    return .wrap (.replicate capacity count) (fun _ => rfl) (← body.build scope)
  | dependent determinant parts next extract, scope => do
    let determinant ← determinant.build scope
    let parts ← Run.family _ fun part => (parts part).build scope
    return .dependent determinant parts next extract
  | withDefault default body, scope =>
    return .wrap (.withDefault default) (fun _ => rfl) (← body.build scope)
  | opt body, scope => return .wrap .opt (fun _ => rfl) (← body.build scope)
  | traced name body, scope => return .wrap (.traced name) (fun _ => rfl) (← body.build scope)
  | deferred failures message body, scope =>
    return .shared (← Run.newCell (.pending ⟨failures, message, scope, body⟩))
  | recursive exposure name body, scope => do
    let knot ← Run.newCell .unfinished
    if exposure = .published then
      Run.modify fun store => store.define name (.handle knot)
    Run.cleaningUp (fun store => store.setCell knot .released) do
      if exposure = .premature then
        let _ ← Run.offer knot
      let built ← body.build ((name, knot) :: scope)
      Run.modify fun store => store.setCell knot (.holding built)
    return .shared knot
  | named name, _ => do
    let store ← Run.current
    Run.orStop (store.find? name) (.unknownName name)
  | self name, scope => do
    let knot ← Run.orStop (scope.lookup name) (.unknownName name)
    return .handle knot

end Definition

namespace Run

/-- A factory run is counted first. It fails as often as it must, and its first success fills the
cell for good. Building may replace entries of the table, and what only they owned is released. -/
def force (address : Address) (factory : Factory) : Run Grammar := do
  modify fun store => { store with builds := store.builds + 1 }
  match factory.failures with
  | failures + 1 =>
    modify fun store => store.setCell address (.pending { factory with failures })
    stop (.grammar (.factory factory.message))
  | 0 =>
    let built ← factory.body.build factory.scope
    modify fun store => store.setCell address (.holding built)
    settle
    return built.grammar

/-- The grammar in a cell. A deferred definition is built at its first use. -/
def resolve (address : Address) : Run Grammar := do
  match ← offer address with
  | .inl body => return body
  | .inr factory => force address factory

end Run

end TwoWayGrammar
