import TwoWayGrammar.Proofs.Run.Inversion
import TwoWayGrammar.Proofs.Store.Building

namespace TwoWayGrammar.Run

variable {α β : Type} {held : AddressSet} {store middle : Store}

/-- With enough fuel the runs come to the outcome and lead to the store after it. -/
def Settles (runs : Nat → Run α) (held : AddressSet) (store : Store) (outcome : Outcome α)
    (after : Store) : Prop :=
  ∃ enough, ∀ fuel, enough ≤ fuel → runs fuel held store = (outcome, after)

/-- With enough fuel the runs end. -/
def Ends (runs : Nat → Run α) (held : AddressSet) (store : Store) : Prop :=
  ∃ outcome after, outcome ≠ .diverged ∧ Settles runs held store outcome after

theorem ends_of_eq {run : Run α} {outcome : Outcome α} (ran : run held store = (outcome, middle))
    (ends : outcome ≠ .diverged) : Ends (fun _ => run) held store :=
  ⟨outcome, middle, ends, 0, fun _ _ => ran⟩

theorem ends_pure (result : α) : Ends (fun _ => (pure result : Run α)) held store :=
  ends_of_eq rfl (by simp)

theorem ends_stop (fault : Fault) : Ends (fun _ => (stop fault : Run α)) held store :=
  ends_of_eq rfl (by simp)

/-- Runs that follow each other end when the first ones do, and then the others. -/
theorem Ends.bind {first : Nat → Run α} {next : Nat → α → Run β} (ends : Ends first held store)
    (endsNext : ∀ value middle, Settles first held store (.returned value) middle →
      Ends (fun fuel => next fuel value) held middle) :
    Ends (fun fuel => first fuel >>= next fuel) held store := by
  obtain ⟨outcome, after, ended, enough, ran⟩ := ends
  cases outcome with
  | returned value =>
    obtain ⟨last, final, endedNext, more, ranNext⟩ := endsNext value after ⟨enough, ran⟩
    refine ⟨last, final, endedNext, max enough more, fun fuel plenty => ?_⟩
    exact (bind_of_returned (ran fuel (by omega))).trans (ranNext fuel (by omega))
  | stopped fault =>
    exact ⟨.stopped fault, after, by simp, enough, fun fuel plenty => bind_of_stopped (ran fuel plenty)⟩
  | diverged => exact absurd rfl ended

theorem Ends.onSuccess {first : Nat → Run (Match α)} {next : Nat → α → Input → Run (Match β)}
    (ends : Ends first held store)
    (endsNext : ∀ value rest middle, Settles first held store (.returned (.success value rest)) middle →
      Ends (fun fuel => next fuel value rest) held middle) :
    Ends (fun fuel => Run.onSuccess (first fuel) (next fuel)) held store := by
  refine ends.bind fun outcome middle settles => ?_
  cases outcome with
  | success value rest => exact endsNext value rest middle settles
  | failure rest => exact ends_pure _

theorem Ends.onFailure {first other : Nat → Run (Match α)} (ends : Ends first held store)
    (endsOther : ∀ rest middle, Settles first held store (.returned (.failure rest)) middle →
      Ends other held middle) :
    Ends (fun fuel => Run.onFailure (first fuel) (other fuel)) held store := by
  refine ends.bind fun outcome middle settles => ?_
  cases outcome with
  | success value rest => exact ends_pure _
  | failure rest => exact endsOther rest middle settles

theorem Ends.holding (cells : AddressSet) {runs : Nat → Run α}
    (ends : Ends runs (held ∪ cells) store) :
    Ends (fun fuel => Run.holding cells (runs fuel)) held store := by
  obtain ⟨outcome, after, ended, enough, ran⟩ := ends
  cases outcome with
  | returned result =>
    refine ⟨.returned result, if after.builds = store.builds then after else after.collect held,
      by simp, enough, fun fuel plenty => ?_⟩
    simp only [Run.holding, ran fuel plenty]
  | stopped fault =>
    refine ⟨.stopped fault, after, by simp, enough, fun fuel plenty => ?_⟩
    simp only [Run.holding, ran fuel plenty]
  | diverged => exact absurd rfl ended

theorem Ends.attempt {runs : Nat → Run α} (ends : Ends runs held store) :
    Ends (fun fuel => Run.attempt (runs fuel)) held store := by
  obtain ⟨outcome, after, ended, enough, ran⟩ := ends
  cases outcome with
  | returned result =>
    exact ⟨.returned (.ok result), after, by simp, enough, fun fuel plenty =>
      attempt_of_returned (ran fuel plenty)⟩
  | stopped fault =>
    exact ⟨.returned (.error fault), after, by simp, enough, fun fuel plenty =>
      attempt_of_stopped (ran fuel plenty)⟩
  | diverged => exact absurd rfl ended

theorem ends_logging (action : TraceLog → Except TraceLog TraceLog) :
    Ends (fun _ => logging action) held store := by
  cases acted : action store.log with
  | ok log => exact ends_of_eq (logging_of_ok action acted) (by simp)
  | error log => exact ends_of_eq (logging_of_error action acted) (by simp)

/-- A traced run ends when the run inside ends, in the store with its entry logged. -/
theorem Ends.traced (operation name : Text) (ok : α → Bool) {runs : Nat → Run α}
    (ends : ∀ entered, store.log.enter operation name = .ok entered →
      Ends runs held { store with log := entered }) :
    Ends (fun fuel => Run.traced operation name ok (runs fuel)) held store := by
  refine (ends_logging fun log => log.enter operation name).bind fun _ middle settles => ?_
  obtain ⟨enough, ran⟩ := settles
  have logged : logging (·.enter operation name) held store = (.returned (), middle) :=
    ran enough (Nat.le_refl enough)
  cases opened : store.log.enter operation name with
  | error log => simp [logging_of_error (·.enter operation name) opened] at logged
  | ok log =>
    rw [logging_of_ok (·.enter operation name) opened] at logged
    obtain rfl := (Prod.mk.inj logged).2
    refine (ends log opened).attempt.bind fun attempted left _ => ?_
    cases attempted with
    | ok result => exact (ends_logging _).bind fun _ _ _ => ends_pure result
    | error fault => exact (ends_logging _).bind fun _ _ _ => ends_stop fault

/-- Using a cell always ends. -/
theorem ends_resolve (cell : Address) : Ends (fun _ => resolve cell) held store := by
  rcases resolve_cases cell held store with ⟨built, _, same⟩ | ⟨factory, pending, same⟩ |
    ⟨fault, same⟩
  · exact ends_of_eq same (by simp)
  · obtain ⟨left, _, _, _, _, _, ⟨fault, stopped⟩ | ⟨built, _, returned⟩⟩ :=
      force_cases pending held
    · exact ends_of_eq (same.trans stopped) (by simp)
    · exact ends_of_eq (same.trans returned) (by simp)
  · exact ends_of_eq same (by simp)

/-- Runs that only need one more unit of fuel end as well. -/
theorem Ends.deeper {runs deeper : Nat → Run α} (ends : Ends runs held store)
    (same : ∀ fuel, deeper (fuel + 1) = runs fuel) : Ends deeper held store := by
  obtain ⟨outcome, after, ended, enough, ran⟩ := ends
  refine ⟨outcome, after, ended, enough + 1, fun fuel plenty => ?_⟩
  obtain ⟨less, rfl⟩ : ∃ less, fuel = less + 1 := ⟨fuel - 1, by omega⟩
  rw [same, ran less (by omega)]

end TwoWayGrammar.Run
