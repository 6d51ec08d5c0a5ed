import TwoWayGrammar.Proofs.Behaviour.Related
import TwoWayGrammar.Proofs.Run.Inversion
import TwoWayGrammar.Session.Step

/-! Between two touches of one program, other programs may touch the store. -/

namespace TwoWayGrammar

/-- A touch of the store uses a cell, opens or closes a level of the log, looks at the count of builds,
or collects. -/
inductive Touch where
  | use (cell : Address)
  | enter (operation name : Text)
  | leave (operation name : Text) (ok : Bool)
  | builds
  | collect

namespace Touch

/-- What a touch gives back. -/
def Result : Touch → Type
  | use _ => Grammar
  | enter _ _ => Unit
  | leave _ _ _ => Unit
  | builds => Nat
  | collect => Unit

/-- A touch is a run that nothing interrupts. -/
def perform : (touch : Touch) → Run touch.Result
  | use cell => Run.resolve cell
  | enter operation name => Run.logging fun log => log.enter operation name
  | leave operation name ok => Run.logging fun log => log.leave operation name ok
  | builds => fun _ store => (.returned store.builds, store)
  | collect => Run.settle

end Touch

/-- A program has ended, or it goes on with a touch while it holds some cells. -/
inductive Program (α : Type) where
  | ended (outcome : Outcome α)
  | touch (touch : Touch) (cells : AddressSet) (next : Outcome touch.Result → Program α)

namespace Program

variable {α β : Type}

/-- The cells that a program holds until its next touch is over. -/
def cells : Program α → AddressSet
  | ended _ => ∅
  | touch _ cells _ => cells

/-- One program after the other, whatever the first one ends with. -/
def finish (program : Program α) (next : Outcome α → Program β) : Program β :=
  match program with
  | ended outcome => next outcome
  | touch first cells further => touch first cells fun result => (further result).finish next

/-- The next program starts only when the first one returned. -/
def andThen (program : Program α) (next : α → Program β) : Program β :=
  program.finish fun
    | .returned result => next result
    | .stopped fault => ended (.stopped fault)
    | .diverged => ended .diverged

instance : Monad Program where
  pure result := ended (.returned result)
  bind := andThen

instance : Faulting Program := ⟨fun fault => ended (.stopped fault), ended .diverged⟩

/-- One touch, with nothing held. -/
def perform (touch : Touch) : Program touch.Result := .touch touch ∅ ended

def use (cell : Address) : Program Grammar := perform (.use cell)

def enter (operation name : Text) : Program Unit := perform (.enter operation name)

def leave (operation name : Text) (ok : Bool) : Program Unit := perform (.leave operation name ok)

def builds : Program Nat := perform .builds

def collect : Program Unit := perform .collect

/-- An attempt turns a fault into a result. -/
def attempt (program : Program α) : Program (Except Fault α) :=
  program.finish fun
    | .returned result => ended (.returned (.ok result))
    | .stopped fault => ended (.returned (.error fault))
    | .diverged => ended .diverged

/-- The cells are held at every touch. -/
def widen (cells : AddressSet) : Program α → Program α
  | ended outcome => ended outcome
  | touch first inner next => touch first (cells ∪ inner) fun result => (next result).widen cells

/-- The cells are held while the program goes on. A program that returned collects when there was a
build meanwhile. -/
def holding (cells : AddressSet) (program : Program α) : Program α := do
  let before ← builds
  let result ← program.widen cells
  let after ← builds
  if after = before then return result
  else do
    collect
    return result

/-- A traced program opens a level of the log and closes it. -/
def traced (operation name : Text) (ok : α → Bool) (program : Program α) : Program α := do
  enter operation name
  match ← program.attempt with
  | .ok result =>
    leave operation name (ok result)
    return result
  | .error fault =>
    leave operation name false
    Faulting.stop fault

/-- A program that nothing interrupts is a run. -/
def run : Program α → Run α
  | ended outcome => fun _ store => (outcome, store)
  | touch first cells next => fun held store =>
    let performed := first.perform (held ∪ cells) store
    (next performed.1).run held performed.2

theorem run_touch (first : Touch) (cells : AddressSet) (next : Outcome first.Result → Program α)
    (held : AddressSet) (store : Store) :
    (touch first cells next).run held store =
      (next (first.perform (held ∪ cells) store).1).run held
        (first.perform (held ∪ cells) store).2 := rfl

/-- What finishes a program runs on the store that the program left. -/
theorem run_finish (program : Program α) (next : Outcome α → Program β) (held : AddressSet)
    (store : Store) :
    (program.finish next).run held store =
      (next (program.run held store).1).run held (program.run held store).2 := by
  induction program generalizing store with
  | ended outcome => rfl
  | touch first cells further ih => exact ih _ _

theorem run_bind (program : Program α) (next : α → Program β) :
    (program >>= next).run = program.run >>= fun result => (next result).run := by
  funext held store
  rw [Run.bind_apply]
  refine (run_finish program _ held store).trans ?_
  rcases program.run held store with ⟨_ | _ | _, after⟩ <;> rfl

@[simp] theorem run_pure (result : α) : (pure result : Program α).run = pure result := rfl

theorem run_attempt (program : Program α) : program.attempt.run = Run.attempt program.run := by
  funext held store
  refine (run_finish program _ held store).trans ?_
  unfold Run.attempt
  rcases program.run held store with ⟨_ | _ | _, after⟩ <;> rfl

theorem run_perform (touch : Touch) : (perform touch).run = touch.perform := by
  funext held store
  rw [perform, run_touch, AddressSet.union_empty]
  rfl

@[simp] theorem run_use (cell : Address) : (use cell).run = Run.resolve cell := run_perform _

@[simp] theorem run_enter (operation name : Text) :
    (enter operation name).run = Run.logging fun log => log.enter operation name := run_perform _

@[simp] theorem run_leave (operation name : Text) (ok : Bool) :
    (leave operation name ok).run = Run.logging fun log => log.leave operation name ok :=
  run_perform _

@[simp] theorem run_collect : collect.run = Run.settle := run_perform _

theorem run_builds_bind (next : Nat → Run α) (held : AddressSet) (store : Store) :
    (builds.run >>= next) held store = next store.builds held store := rfl

theorem run_widen (cells : AddressSet) (program : Program α) (held : AddressSet) (store : Store) :
    (program.widen cells).run held store = program.run (held ∪ cells) store := by
  induction program generalizing store with
  | ended outcome => rfl
  | touch first inner next ih =>
    have same : held ∪ (cells ∪ inner) = held ∪ cells ∪ inner := by
      ext address
      simp [or_assoc]
    rw [widen, run_touch, run_touch, same]
    exact ih _ _

theorem run_holding (cells : AddressSet) (program : Program α) :
    (program.holding cells).run = Run.holding cells program.run := by
  funext held store
  unfold Program.holding Run.holding
  rw [run_bind, run_builds_bind, run_bind]
  rcases found : program.run (held ∪ cells) store with ⟨outcome, after⟩
  have widened : (program.widen cells).run held store = (outcome, after) :=
    (run_widen cells program held store).trans found
  cases outcome with
  | returned result =>
    rw [Run.bind_of_returned widened, run_bind, run_builds_bind]
    dsimp only
    split
    · rfl
    · rw [run_bind, run_collect]
      rfl
  | stopped fault => exact Run.bind_of_stopped widened
  | diverged => exact Run.bind_of_diverged widened

theorem run_traced (operation name : Text) (ok : α → Bool) (program : Program α) :
    (program.traced operation name ok).run = Run.traced operation name ok program.run := by
  unfold Program.traced Run.traced
  rw [run_bind, run_enter]
  refine congrArg (_ >>= ·) (funext fun _ => ?_)
  rw [run_bind, run_attempt]
  refine congrArg (_ >>= ·) (funext fun attempted => ?_)
  cases attempted with
  | ok result => exact run_bind _ _
  | error fault => exact run_bind _ _

/-- Programs wait in a loop as their patience allows, log what is traced, and enter the grammars of
cells. -/
def interpretation (patience : Nat) (enter : Grammar → Behaviour Program) :
    Interpretation Program where
  loop item input := Behaviour.readMany item (input.length + 1 + patience) input
  traced name body :=
    ⟨fun input => (body.read input).traced "match".toList name Match.accepted,
      fun value rest => (body.write value rest).traced "construct".toList name fun _ => true⟩
  shared cell :=
    ⟨fun input => use cell >>= fun body => (enter body).read input,
      fun value rest => use cell >>= fun body => (enter body).write value rest⟩
  handle cell :=
    ⟨fun input => holding {cell} (use cell >>= fun body => (enter body).read input),
      fun value rest =>
        holding {cell} (use cell >>= fun body => (enter body).write value rest)⟩

/-- A program and its run. -/
def Is (α : Type) (program : Program α) (run : Run α) : Prop := program.run = run

theorem is_respects : Behaviour.Respects Is where
  pure _ := rfl
  stop _ := rfl
  bind {_ _ first other next following} same further := by
    change (first >>= next).run = other >>= following
    rw [run_bind, show first.run = other from same]
    exact congrArg (other >>= ·) (funext further)

theorem is_interpretation (patience : Nat) {enter : Grammar → Behaviour Program}
    {other : Grammar → Behaviour Run} (entered : ∀ body, (enter body).Related Is (other body)) :
    (interpretation patience enter).Related Is (Run.interpretation patience other) where
  loop items input := by
    have loops := is_respects.readMany items 0 (fun _ => rfl)
      (input.length + 1 + patience) input
    exact loops.trans (Behaviour.readMany_run _ _ _)
  traced name _ _ same :=
    ⟨fun input => (run_traced _ _ _ _).trans
        (congrArg (Run.traced _ name Match.accepted) (same.read input)),
      fun value rest => (run_traced _ _ _ _).trans
        (congrArg (Run.traced _ name fun _ => true) (same.write value rest))⟩
  shared cell :=
    ⟨fun input => is_respects.bind (run_use _) fun body => (entered body).read input,
      fun value rest => is_respects.bind (run_use _) fun body => (entered body).write value rest⟩
  handle cell :=
    ⟨fun input => (run_holding _ _).trans (congrArg (Run.holding {cell})
        (is_respects.bind (run_use _) fun body => (entered body).read input)),
      fun value rest => (run_holding _ _).trans (congrArg (Run.holding {cell})
        (is_respects.bind (run_use _) fun body => (entered body).write value rest))⟩

end Program

namespace Grammar

/-- The programs of a grammar, with fuel for nested entries into cells and for loops. -/
def program : (fuel : Nat) → Grammar → Behaviour Program
  | 0 => behaviour (Program.interpretation 0 fun _ => .bottom)
  | fuel + 1 => behaviour (Program.interpretation (fuel + 1) (program fuel))

/-- The programs of a grammar one level deeper. -/
def programNested : (fuel : Nat) → Grammar → Behaviour Program
  | 0 => fun _ => .bottom
  | fuel + 1 => program fuel

theorem program_eq (fuel : Nat) (grammar : Grammar) :
    grammar.program fuel = grammar.behaviour (Program.interpretation fuel (programNested fuel)) := by
  cases fuel <;> rfl

/-- A program of a grammar that nothing interrupts is the run of the grammar. -/
theorem program_runs (fuel : Nat) (grammar : Grammar) :
    (grammar.program fuel).Related Program.Is (grammar.runs fuel) := by
  induction fuel generalizing grammar with
  | zero =>
    rw [program_eq, runs_eq]
    exact behaviour_related Program.is_respects
      (Program.is_interpretation 0 fun _ => .bottom fun {_} => rfl) grammar
  | succ fuel ih =>
    rw [program_eq, runs_eq]
    exact behaviour_related Program.is_respects (Program.is_interpretation (fuel + 1) ih) grammar

end Grammar

end TwoWayGrammar
