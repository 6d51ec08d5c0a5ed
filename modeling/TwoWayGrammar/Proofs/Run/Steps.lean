import TwoWayGrammar.Proofs.Store.Building
import TwoWayGrammar.Session.Step

namespace TwoWayGrammar

namespace Run

variable {α β : Type} {property : ∀ {α : Type}, Run α → Prop}

theorem Passes.mapM (passes : Passes property) {run : α → Run β} (each : ∀ item, property (run item))
    (items : List α) : property (items.mapM run) := by
  induction items with
  | nil => exact passes.pure []
  | cons item items ih =>
    rw [List.mapM_cons]
    exact passes.bind (each item) fun _ => passes.bind ih fun _ => passes.pure _

theorem Passes.valueOf (passes : Passes property) (found : Match Value) :
    property (Run.valueOf found) := by
  unfold Run.valueOf
  split
  · exact passes.pure _
  · exact passes.stop _

end Run

namespace Step

open Run

/-- A property of runs that steps carry. It passes to composed runs and holds of what steps do between
their direct calls to the log. -/
structure Carried (fuel : Nat) (property : ∀ {α : Type}, Run α → Prop) : Prop
    extends Passes property where
  attempt : ∀ {α : Type} {run : Run α}, property run → property (Run.attempt run)
  holding : ∀ {α : Type} (cells : AddressSet) {run : Run α}, property run →
    property (Run.holding cells run)
  settle : property settle
  build : ∀ (definition : Definition) (scope : Scope), property (definition.build scope)
  read : ∀ (grammar : Grammar) (input : Input), property (grammar.read fuel input)
  write : ∀ (grammar : Grammar) (value : Value) (rest : Input), property (grammar.write fuel value rest)
  define : ∀ (name : Text) (definition : Definition), property ((Step.define name definition).run fuel)
  erase : ∀ name : Text, property (modify fun store => store.erase name)
  enable : ∀ on : Bool,
    property (modify fun store => { store with log := { store.log with enabled := on } })

namespace Carried

variable {α : Type} {fuel : Nat} {property : ∀ {α : Type}, Run α → Prop}

/-- A use of a definition builds it, holds it and runs it. -/
theorem use (carried : Carried fuel property) (definition : Definition) {next : Grammar → Run α}
    (each : ∀ grammar, property (next grammar)) : property (definition.use next) :=
  carried.bind (carried.build definition []) fun built =>
    carried.holding built.owned (carried.bind carried.settle fun _ => each built.grammar)

theorem parse (carried : Carried fuel property) (grammar : Grammar) (input : Input) :
    property (grammar.parse fuel input) :=
  carried.bind (carried.read grammar input) fun _ => carried.pure _

/-- Every step has the property, if the direct calls to the log have it. -/
theorem step (carried : Carried fuel property) (step : Step)
    (enters : ∀ operation name, step = .enter operation name → property (step.run fuel))
    (leaves : ∀ operation name ok, step = .leave operation name ok → property (step.run fuel)) :
    property (step.run fuel) := by
  cases step with
  | define name definition => exact carried.define name definition
  | drop name =>
    rw [run]
    exact carried.bind carried.current fun _ => carried.bind (carried.orStop _ _) fun _ =>
      carried.bind (carried.erase name) fun _ => carried.pure _
  | read definition input =>
    rw [run]
    exact carried.use definition fun grammar => carried.bind (carried.read grammar input) fun _ =>
      carried.pure _
  | readValue definition input =>
    rw [run]
    exact carried.use definition fun grammar => carried.bind (carried.read grammar input) fun found =>
      carried.bind (carried.valueOf found) fun _ => carried.pure _
  | readFault definition input =>
    rw [run]
    refine carried.use definition fun grammar => carried.bind
      (carried.attempt (carried.bind (carried.read grammar input) carried.valueOf)) fun attempted => ?_
    split
    · exact carried.pure _
    · exact carried.pure _
    · exact carried.stop _
  | parseEach definition inputs =>
    rw [run]
    refine carried.use definition fun grammar =>
      carried.bind (carried.mapM (fun input => ?_) inputs) fun _ => carried.pure _
    exact carried.bind (carried.attempt (carried.parse grammar.complete input)) fun _ =>
      carried.bind carried.settle fun _ => carried.pure _
  | parse definition input =>
    rw [run]
    exact carried.use definition fun grammar => carried.bind (carried.parse grammar input) fun _ =>
      carried.pure _
  | parseAll definition input =>
    rw [run]
    exact carried.use definition fun grammar =>
      carried.bind (carried.parse grammar.complete input) fun _ => carried.pure _
  | print definition value =>
    rw [run]
    exact carried.use definition fun grammar => carried.bind (carried.write grammar value []) fun _ =>
      carried.pure _
  | write definition value rest =>
    rw [run]
    exact carried.use definition fun grammar => carried.bind (carried.write grammar value rest) fun _ =>
      carried.pure _
  | readThenWrite definition input =>
    rw [run]
    refine carried.use definition fun grammar =>
      carried.bind (carried.read grammar input) fun found => ?_
    cases found with
    | success value rest =>
      exact carried.bind (carried.write grammar value rest) fun _ => carried.pure _
    | failure rest => exact carried.pure _
  | writeThenRead definition value rest =>
    rw [run]
    exact carried.use definition fun grammar =>
      carried.bind (carried.write grammar value rest) fun written =>
        carried.bind (carried.read grammar written) fun _ => carried.pure _
  | compare first firstInput second secondInput =>
    rw [run]
    exact carried.use first fun firstGrammar =>
      carried.bind (carried.read firstGrammar firstInput) fun _ =>
        carried.use second fun secondGrammar =>
          carried.bind (carried.read secondGrammar secondInput) fun _ => carried.pure _
  | depth =>
    rw [run]
    exact carried.bind carried.current fun _ => carried.pure _
  | enable on =>
    rw [run]
    exact carried.bind (carried.enable on) fun _ => carried.pure _
  | enabled =>
    rw [run]
    exact carried.bind carried.current fun _ => carried.pure _
  | enter operation name => exact enters operation name rfl
  | leave operation name ok => exact leaves operation name ok rfl
  | builds =>
    rw [run]
    exact carried.bind carried.current fun _ => carried.pure _

end Carried

end Step

end TwoWayGrammar
