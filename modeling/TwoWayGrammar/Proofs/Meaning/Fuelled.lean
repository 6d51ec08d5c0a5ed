import Mathlib.Logic.Function.Iterate
import TwoWayGrammar.Proofs.Behaviour.Related

/-! Equations that spend fuel have one solution. -/

namespace TwoWayGrammar

/-- A fuelled computation has an outcome for every amount of fuel. -/
def Fuelled (α : Type) : Type := Nat → Outcome α

/-- A meaning is a behaviour without a store. -/
abbrev Meaning : Type := Behaviour Fuelled

namespace Fuelled

variable {α β : Type} {limit fuel : Nat}

instance : Monad Fuelled where
  pure result := fun _ => .returned result
  bind first next := fun fuel =>
    match first fuel with
    | .returned result => next result fuel
    | .stopped fault => .stopped fault
    | .diverged => .diverged

instance : Faulting Fuelled := ⟨fun fault _ => .stopped fault, fun _ => .diverged⟩

theorem bind_apply (first : Fuelled α) (next : α → Fuelled β) (fuel : Nat) :
    (first >>= next) fuel =
      match first fuel with
      | .returned result => next result fuel
      | .stopped fault => .stopped fault
      | .diverged => .diverged := rfl

/-- One level deeper there is one unit of fuel less. -/
def deeper (computation : Fuelled α) : Fuelled α
  | 0 => .diverged
  | fuel + 1 => computation fuel

/-- Loops are as patient as there is fuel. -/
def loop : Behaviour.Loop Fuelled := fun item input fuel =>
  Behaviour.readMany item (input.length + 1 + fuel) input fuel

/-- Two computations agree with any fuel below the limit. -/
def Below (limit : Nat) (α : Type) (first second : Fuelled α) : Prop :=
  ∀ fuel < limit, first fuel = second fuel

theorem below_respects (limit : Nat) : Behaviour.Respects (Below limit) where
  pure _ := fun _ _ => rfl
  stop _ := fun _ _ => rfl
  bind {_ _ first other next following} same further := fun fuel inside => by
    rw [bind_apply, bind_apply, same fuel inside]
    cases other fuel with
    | returned result => exact further result fuel inside
    | stopped fault => rfl
    | diverged => rfl

theorem Below.deeper {first second : Fuelled α} (same : Below limit α first second) :
    Below (limit + 1) α first.deeper second.deeper
  | 0, _ => rfl
  | fuel + 1, inside => same fuel (Nat.lt_of_succ_lt_succ inside)

theorem below_loop (limit : Nat) : Behaviour.Loop.Related (Below limit) loop loop :=
  fun items input fuel inside =>
    (below_respects limit).readMany items 0 (fun _ _ _ => rfl)
      (input.length + 1 + fuel) input fuel inside

/-- Whatever the first computation settles on, the second one settles on as well. -/
def Refines (α : Type) (first second : Fuelled α) : Prop :=
  ∀ fuel, first fuel = .diverged ∨ ∃ enough, ∀ more, enough ≤ more → second more = first fuel

theorem refines_pure (result : α) : Refines α (pure result) (pure result) := fun _ =>
  .inr ⟨0, fun _ _ => rfl⟩

theorem refines_respects : Behaviour.Respects Refines where
  pure := refines_pure
  stop _ := fun _ => .inr ⟨0, fun _ _ => rfl⟩
  bind {_ _ first other next following} same further := fun fuel => by
    rw [bind_apply]
    rcases same fuel with diverged | ⟨enough, same⟩
    · exact .inl (by rw [diverged])
    cases settled : first fuel with
    | returned result =>
      rcases further result fuel with diverged | ⟨later, settles⟩
      · exact .inl diverged
      · refine .inr ⟨max enough later, fun more least => ?_⟩
        rw [bind_apply, same more (by omega), settled]
        exact settles more (by omega)
    | stopped fault =>
      exact .inr ⟨enough, fun more least => by rw [bind_apply, same more least, settled]⟩
    | diverged => exact .inl rfl

/-- A loop settles on what a loop with fewer attempts settled on. -/
theorem refines_readMany {item other : Input → Fuelled (Match α)}
    (items : ∀ input, Refines _ (item input) (other input)) (attempts : Nat) (input : Input)
    (fuel : Nat) :
    Behaviour.readMany item attempts input fuel = .diverged ∨
      ∃ enough, ∀ more, enough ≤ more → ∀ extra,
        Behaviour.readMany other (attempts + extra) input more =
          Behaviour.readMany item attempts input fuel := by
  induction attempts generalizing input with
  | zero => exact .inl rfl
  | succ attempts ih =>
    have step (extra : Nat) : attempts + 1 + extra = attempts + extra + 1 := by omega
    simp only [step, Behaviour.readMany, bind_apply]
    rcases items input fuel with diverged | ⟨enough, same⟩
    · exact .inl (by rw [diverged])
    cases settled : item input fuel with
    | returned found =>
      rw [settled] at same
      cases found with
      | success value rest =>
        rcases ih rest with diverged | ⟨later, settles⟩
        · exact .inl (by simp only [bind_apply, diverged])
        · refine .inr ⟨max enough later, fun more least extra => ?_⟩
          simp only [same more (by omega), bind_apply, settles more (by omega) extra]
          rfl
      | failure rest =>
        refine .inr ⟨enough, fun more least _ => ?_⟩
        rw [same more least]
        rfl
    | stopped fault =>
      rw [settled] at same
      exact .inr ⟨enough, fun more least _ => by rw [same more least]⟩
    | diverged => exact .inl rfl

theorem refines_loop : Behaviour.Loop.Related Refines loop loop := fun items input fuel => by
  rcases refines_readMany items (input.length + 1 + fuel) input fuel with diverged |
    ⟨enough, settles⟩
  · exact .inl diverged
  · refine .inr ⟨max enough fuel, fun more least => ?_⟩
    have more_eq : input.length + 1 + more = input.length + 1 + fuel + (more - fuel) := by omega
    unfold loop
    rw [more_eq]
    exact settles more (by omega) _

/-- Spending fuel on the left changes nothing that is settled on. -/
theorem Refines.deeper_left {first second : Fuelled α} (refines : Refines α first second) :
    Refines α first.deeper second
  | 0 => .inl rfl
  | fuel + 1 => refines fuel

/-- Spending fuel on the right changes nothing that is settled on. -/
theorem Refines.deeper_right {first second : Fuelled α} (refines : Refines α first second) :
    Refines α first second.deeper := fun fuel => by
  rcases refines fuel with diverged | ⟨enough, settles⟩
  · exact .inl diverged
  · refine .inr ⟨enough + 1, fun more least => ?_⟩
    obtain ⟨less, rfl⟩ := Nat.exists_eq_add_of_le' least
    exact settles (less + enough) (by omega)

end Fuelled

namespace Meaning

open Fuelled Behaviour

variable {ι : Type} {limit : Nat}

/-- The meaning of a cell's grammar, seen from the cell. -/
def deeper (meaning : Meaning) : Meaning :=
  ⟨fun input => (meaning.read input).deeper, fun value rest => (meaning.write value rest).deeper⟩

/-- Two meanings agree with any fuel below the limit. -/
abbrev Below (limit : Nat) (first second : Meaning) : Prop :=
  Behaviour.Related (Fuelled.Below limit) first second

/-- Whatever the first meaning settles on, the second one settles on as well. -/
abbrev Refines (first second : Meaning) : Prop := Behaviour.Related Fuelled.Refines first second

theorem Below.refl (limit : Nat) (meaning : Meaning) : Below limit meaning meaning :=
  ⟨fun _ _ _ => rfl, fun _ _ _ _ => rfl⟩

theorem Below.mono {first second : Meaning} {less : Nat} (same : Below limit first second)
    (within : less ≤ limit) : Below less first second :=
  ⟨fun input fuel inside => same.read input fuel (Nat.lt_of_lt_of_le inside within),
    fun value rest fuel inside => same.write value rest fuel (Nat.lt_of_lt_of_le inside within)⟩

theorem below_zero (first second : Meaning) : Below 0 first second :=
  ⟨fun _ _ inside => absurd inside (Nat.not_lt_zero _),
    fun _ _ _ inside => absurd inside (Nat.not_lt_zero _)⟩

theorem Below.deeper {first second : Meaning} (same : Below limit first second) :
    Below (limit + 1) first.deeper second.deeper :=
  ⟨fun input => (same.read input).deeper, fun value rest => (same.write value rest).deeper⟩

/-- Meanings that agree below every limit are equal. -/
theorem eq_of_below {first second : Meaning} (same : ∀ limit, Below limit first second) :
    first = second :=
  Behaviour.ext
    (funext fun input => funext fun fuel =>
      (same (fuel + 1)).read input fuel (Nat.lt_succ_self fuel))
    (funext fun value => funext fun rest => funext fun fuel =>
      (same (fuel + 1)).write value rest fuel (Nat.lt_succ_self fuel))

theorem bottom_refines (meaning : Meaning) : Refines .bottom meaning :=
  ⟨fun _ _ => .inl rfl, fun _ _ _ => .inl rfl⟩

theorem Refines.deeper_left {first second : Meaning} (refines : Refines first second) :
    Refines first.deeper second :=
  ⟨fun input => (refines.read input).deeper_left,
    fun value rest => (refines.write value rest).deeper_left⟩

theorem Refines.deeper_right {first second : Meaning} (refines : Refines first second) :
    Refines first second.deeper :=
  ⟨fun input => (refines.read input).deeper_right,
    fun value rest => (refines.write value rest).deeper_right⟩

/-- Some rounds of equations for meanings, from no behaviour on. -/
def approximant (step : (ι → Meaning) → ι → Meaning) (rounds : Nat) : ι → Meaning :=
  step^[rounds] fun _ => .bottom

/-- The solution of equations for meanings has with any fuel what one round more than the fuel gives. -/
def solve (step : (ι → Meaning) → ι → Meaning) (index : ι) : Meaning where
  read input fuel := (approximant step (fuel + 1) index).read input fuel
  write value rest fuel := (approximant step (fuel + 1) index).write value rest fuel

variable {step : (ι → Meaning) → ι → Meaning}

theorem approximant_succ (step : (ι → Meaning) → ι → Meaning) (rounds : Nat) :
    approximant step (rounds + 1) = step (approximant step rounds) :=
  Function.iterate_succ_apply' step rounds _

/-- Equations are contractive when each round of them spends fuel. -/
def Contractive (step : (ι → Meaning) → ι → Meaning) : Prop :=
  ∀ {limit : Nat} {first second : ι → Meaning}, (∀ index, Below limit (first index) (second index)) →
    ∀ index, Below (limit + 1) (step first index) (step second index)

/-- Further rounds change nothing below the number of rounds. -/
theorem below_approximant (contractive : Contractive step) (rounds more : Nat) (index : ι) :
    Below rounds (approximant step rounds index) (approximant step (rounds + more) index) := by
  induction rounds generalizing index with
  | zero => exact below_zero _ _
  | succ rounds ih =>
    rw [Nat.add_right_comm, approximant_succ, approximant_succ]
    exact contractive ih index

theorem below_solve_approximant (contractive : Contractive step) (rounds : Nat) (index : ι) :
    Below rounds (solve step index) (approximant step rounds index) := by
  have rounds_eq {fuel : Nat} (inside : fuel < rounds) : fuel + 1 + (rounds - (fuel + 1)) = rounds := by
    omega
  constructor
  · intro input fuel inside
    have later := (below_approximant contractive (fuel + 1) (rounds - (fuel + 1)) index).read input
    rw [rounds_eq inside] at later
    exact later fuel (Nat.lt_succ_self fuel)
  · intro value rest fuel inside
    have later :=
      (below_approximant contractive (fuel + 1) (rounds - (fuel + 1)) index).write value rest
    rw [rounds_eq inside] at later
    exact later fuel (Nat.lt_succ_self fuel)

/-- Contractive equations are solved. -/
theorem solve_eq (contractive : Contractive step) : solve step = step (solve step) := by
  funext index
  refine eq_of_below fun limit => ?_
  have first := below_solve_approximant contractive (limit + 1) index
  have second := contractive (below_solve_approximant contractive limit) index
  rw [approximant_succ] at first
  exact Below.mono ⟨fun input fuel inside => (first.read input fuel inside).trans
      (second.read input fuel inside).symm,
    fun value rest fuel inside => (first.write value rest fuel inside).trans
      (second.write value rest fuel inside).symm⟩ (Nat.le_succ limit)

/-- Equations that keep agreement below a limit have solutions that agree below it. -/
theorem below_solve {other : (ι → Meaning) → ι → Meaning}
    (closed : ∀ first second : ι → Meaning, (∀ index, Below limit (first index) (second index)) →
      ∀ index, Below limit (step first index) (other second index)) (index : ι) :
    Below limit (solve step index) (solve other index) := by
  have rounds (count : Nat) (index : ι) :
      Below limit (approximant step count index) (approximant other count index) := by
    induction count generalizing index with
    | zero => exact Below.refl _ _
    | succ count ih =>
      rw [approximant_succ, approximant_succ]
      exact closed _ _ ih index
  exact ⟨fun input fuel inside => (rounds (fuel + 1) index).read input fuel inside,
    fun value rest fuel inside => (rounds (fuel + 1) index).write value rest fuel inside⟩

/-- A solution refines whatever its equations do not lead away from. -/
theorem solve_refines {other : ι → Meaning}
    (closed : ∀ first : ι → Meaning, (∀ index, Refines (first index) (other index)) →
      ∀ index, Refines (step first index) (other index)) (index : ι) :
    Refines (solve step index) (other index) := by
  have rounds (count : Nat) (index : ι) : Refines (approximant step count index) (other index) := by
    induction count generalizing index with
    | zero => exact bottom_refines _
    | succ count ih =>
      rw [approximant_succ]
      exact closed _ ih index
  exact ⟨fun input fuel => (rounds (fuel + 1) index).read input fuel,
    fun value rest fuel => (rounds (fuel + 1) index).write value rest fuel⟩

end Meaning

end TwoWayGrammar
