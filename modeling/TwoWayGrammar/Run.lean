import TwoWayGrammar.Store.Lifetime

/-! What a run changed before it stopped stays changed. -/

namespace TwoWayGrammar

/-- A run returns a result, stops with a fault, or goes on without end. -/
inductive Outcome (α : Type) where
  | returned (result : α)
  | stopped (fault : Fault)
  | diverged
  deriving DecidableEq

/-- Given the cells that are held while it goes on, a run takes the store before it to its outcome and
the store after it. -/
def Run (α : Type) : Type := AddressSet → Store → Outcome α × Store

namespace Run

variable {α β : Type}

/-- The next run starts only when the first one returned. -/
def andThen (first : Run α) (next : α → Run β) : Run β := fun held store =>
  match first held store with
  | (.returned result, after) => next result held after
  | (.stopped fault, after) => (.stopped fault, after)
  | (.diverged, after) => (.diverged, after)

instance : Monad Run where
  pure result := fun _ store => (.returned result, store)
  bind := andThen

@[simp] theorem pure_apply (result : α) (held : AddressSet) (store : Store) :
    (pure result : Run α) held store = (.returned result, store) := rfl

theorem bind_apply (first : Run α) (next : α → Run β) (held : AddressSet) (store : Store) :
    (first >>= next) held store =
      match first held store with
      | (.returned result, after) => next result held after
      | (.stopped fault, after) => (.stopped fault, after)
      | (.diverged, after) => (.diverged, after) := rfl

theorem bind_of_returned {first : Run α} {next : α → Run β} {held : AddressSet}
    {store after : Store} {result : α} (returned : first held store = (.returned result, after)) :
    (first >>= next) held store = next result held after := by
  rw [bind_apply, returned]

theorem bind_of_stopped {first : Run α} {next : α → Run β} {held : AddressSet}
    {store after : Store} {fault : Fault} (stopped : first held store = (.stopped fault, after)) :
    (first >>= next) held store = (.stopped fault, after) := by
  rw [bind_apply, stopped]

theorem bind_of_diverged {first : Run α} {next : α → Run β} {held : AddressSet}
    {store after : Store} (diverged : first held store = (.diverged, after)) :
    (first >>= next) held store = (.diverged, after) := by
  rw [bind_apply, diverged]

instance : LawfulMonad Run :=
  LawfulMonad.mk' Run
    (fun run => by
      funext held store
      change andThen run (fun result => pure result) held store = run held store
      unfold andThen
      rcases run held store with ⟨_ | _ | _, _⟩ <;> rfl)
    (fun _ _ => rfl)
    (fun run next last => by
      funext held store
      change andThen (andThen run next) last held store =
        andThen run (fun result => andThen (next result) last) held store
      unfold andThen
      rcases run held store with ⟨_ | _ | _, _⟩ <;> rfl)

/-- Stopping leaves the store as it is. -/
def stop (fault : Fault) : Run α := fun _ store => (.stopped fault, store)

/-- A run without end has no result. -/
def diverge : Run α := fun _ store => (.diverged, store)

/-- The current store. -/
def current : Run Store := fun _ store => (.returned store, store)

/-- A change of the store. -/
def modify (change : Store → Store) : Run Unit := fun _ store => (.returned (), change store)

/-- A missing result is a fault. -/
def orStop (result : Option α) (fault : Fault) : Run α :=
  match result with
  | some value => pure value
  | none => stop fault

/-- An attempt turns a fault into a result. -/
def attempt (run : Run α) : Run (Except Fault α) := fun held store =>
  match run held store with
  | (.returned result, after) => (.returned (.ok result), after)
  | (.stopped fault, after) => (.returned (.error fault), after)
  | (.diverged, after) => (.diverged, after)

/-- The cleanup changes the store only when the run stops with a fault. -/
def cleaningUp (cleanup : Store → Store) (run : Run α) : Run α := fun held store =>
  match run held store with
  | (.stopped fault, after) => (.stopped fault, cleanup after)
  | other => other

/-- Cells that nothing owns any more are released, and cells that are held are not. -/
def settle : Run Unit := fun held store => (.returned (), store.collect held)

/-- The cells are held while the run goes on. A deferred build during the run may have left them
without another owner, and then they are released when the run returns. -/
def holding (cells : AddressSet) (run : Run α) : Run α := fun held store =>
  match run (held ∪ cells) store with
  | (.returned result, after) =>
    (.returned result, if after.builds = store.builds then after else after.collect held)
  | other => other

/-- Writing to the log stops the run when the sink refuses. -/
def logging (action : TraceLog → Except TraceLog TraceLog) : Run Unit := fun _ store =>
  match action store.log with
  | .ok log => (.returned (), { store with log })
  | .error log => (.stopped .sink, { store with log })

/-- A traced run logs its entry and its exit. A fault counts as a failure and passes on, unless the
exit line itself is refused. -/
def traced (operation name : Text) (ok : α → Bool) (run : Run α) : Run α := do
  logging fun log => log.enter operation name
  match ← attempt run with
  | .ok result =>
    logging fun log => log.leave operation name (ok result)
    return result
  | .error fault =>
    logging fun log => log.leave operation name false
    stop fault

/-- A finite family of runs goes in order of the index. -/
def family : (size : Nat) → (Fin size → Run α) → Run (Fin size → α)
  | 0, _ => pure fun index => index.elim0
  | size + 1, runs => do
    let first ← runs 0
    let others ← family size fun index => runs index.succ
    return Fin.cases first others

end Run

end TwoWayGrammar
