import TwoWayGrammar.Proofs.Run.Inversion
import TwoWayGrammar.Proofs.Run.Mapping

namespace TwoWayGrammar.Run

variable {α : Type} {item : Input → Run (Match α)} {held : AddressSet}

/-- Successful attempts lead from an input and a store to a rest and a later store, and each of them
gives a value. -/
inductive Attempts (item : Input → Run (Match α)) (held : AddressSet) :
    Store → Input → List α → Input → Store → Prop
  | none (store : Store) (input : Input) : Attempts item held store input [] input store
  | further {store middle after : Store} {input between rest : Input} {value : α} {values : List α}
      (found : item input held store = (.returned (.success value between), middle))
      (others : Attempts item held middle between values rest after) :
      Attempts item held store input (value :: values) rest after

variable {store middle after : Store} {input rest left : Input} {values : List α}

/-- What a loop has returned comes from its successful attempts, and after them an attempt failed. -/
theorem attempts_of_readMany {attempts : Nat}
    (returned : readMany item attempts input held store = (.returned (values, rest), after)) :
    ∃ middle left, Attempts item held store input values rest middle ∧
      item rest held middle = (.returned (.failure left), after) := by
  induction attempts generalizing input store values with
  | zero => simp [readMany, diverge] at returned
  | succ attempts ih =>
    obtain ⟨outcome, close, first, returned⟩ := returned_of_bind returned
    cases outcome with
    | success value between =>
      obtain ⟨⟨others, ending⟩, last, looped, returned⟩ := returned_of_bind returned
      obtain ⟨same, rfl⟩ := returned_of_pure returned
      obtain ⟨rfl, rfl⟩ := Prod.mk.inj same
      obtain ⟨middle, left, chain, failed⟩ := ih looped
      exact ⟨middle, left, .further first chain, failed⟩
    | failure left =>
      obtain ⟨same, rfl⟩ := returned_of_pure returned
      obtain ⟨rfl, rfl⟩ := Prod.mk.inj same
      exact ⟨store, left, .none store input, first⟩

/-- A loop with an attempt left for the failure returns what its successful attempts gave. -/
theorem readMany_of_attempts {attempts : Nat} (chain : Attempts item held store input values rest middle)
    (failed : item rest held middle = (.returned (.failure left), after))
    (enough : values.length < attempts) :
    readMany item attempts input held store = (.returned (values, rest), after) := by
  induction chain generalizing attempts with
  | none store input =>
    obtain ⟨attempts, rfl⟩ : ∃ fewer, attempts = fewer + 1 := ⟨attempts - 1, by omega⟩
    exact bind_of_returned failed
  | further found others ih =>
    obtain ⟨attempts, rfl⟩ : ∃ fewer, attempts = fewer + 1 := ⟨attempts - 1, by omega⟩
    have looped := ih failed (Nat.lt_of_succ_lt_succ enough)
    exact (bind_of_returned found).trans (bind_of_returned looped)

/-- A chain is made of any number of its first attempts and of those that are left. -/
theorem Attempts.split (chain : Attempts item held store input values rest after) (count : Nat) :
    ∃ between middle, Attempts item held store input (values.take count) between middle ∧
      Attempts item held middle between (values.drop count) rest after := by
  induction chain generalizing count with
  | none store input =>
    rw [List.take_nil, List.drop_nil]
    exact ⟨input, store, .none store input, .none store input⟩
  | @further store _ _ input _ _ _ _ found others ih =>
    cases count with
    | zero => exact ⟨input, store, .none store input, .further found others⟩
    | succ count =>
      obtain ⟨between, middle, front, back⟩ := ih count
      exact ⟨between, middle, .further found front, back⟩

/-- Attempts that succeed with one item succeed with another one that gives the same successes. -/
theorem Attempts.mono {other : Input → Run (Match α)}
    (same : ∀ {store input value rest after},
      item input held store = (.returned (.success value rest), after) →
        other input held store = (.returned (.success value rest), after))
    (chain : Attempts item held store input values rest after) :
    Attempts other held store input values rest after := by
  induction chain with
  | none store input => exact .none store input
  | further found _ ih => exact .further (same found) ih

/-- A loop makes the attempts of a chain and goes on behind them, whatever comes of that. -/
theorem readMany_of_chain (chain : Attempts item held store input values rest middle) (attempts : Nat) :
    readMany item (values.length + attempts) input held store =
      ((fun found => (values ++ found.1, found.2)) <$> readMany item attempts rest) held middle := by
  induction chain with
  | none store input =>
    rw [List.length_nil, Nat.zero_add]
    simp only [List.nil_append, id_map']
  | @further store middle after input between rest value values found others ih =>
    have one : readMany item ((value :: values).length + attempts) input held store =
        ((fun found => (value :: found.1, found.2)) <$> readMany item (values.length + attempts) between)
          held middle := by
      rw [List.length_cons, Nat.add_right_comm, readMany, map_eq_pure_bind]
      exact bind_of_returned found
    rw [one, map_apply, ih, ← map_apply, ← comp_map]
    rfl

/-- Reading a number of times makes the attempts of a chain, and behind them those that are missing. -/
theorem readTimes_of_chain (chain : Attempts item held store input values rest middle) (times : Nat) :
    readTimes item (values.length + times) input held store =
      (Match.map (values ++ ·) <$> readTimes item times rest) held middle := by
  induction chain with
  | none store input =>
    rw [List.length_nil, Nat.zero_add, ← onSuccess_success]
    simp only [List.nil_append, onSuccess_pure]
  | @further store middle after input between rest value values found others ih =>
    have one : readTimes item ((value :: values).length + times) input held store =
        (Match.map (value :: ·) <$> readTimes item (values.length + times) between) held middle := by
      rw [List.length_cons, Nat.add_right_comm, readTimes, onSuccess_of_success found,
        ← onSuccess_success]
    rw [one, map_apply, ih, ← map_apply, map_map]
    rfl

end TwoWayGrammar.Run
