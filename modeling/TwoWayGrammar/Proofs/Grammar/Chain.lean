import TwoWayGrammar.Proofs.Grammar.Finding
import TwoWayGrammar.Proofs.Run.Loop
import TwoWayGrammar.Proofs.Run.Repetition

namespace TwoWayGrammar

/-- A list with further values in front of its own. -/
def Value.prepend (values : List Value) : Value → Value
  | .list others => .list (values ++ others)
  | other => other

namespace Grammar

/-- Successful readings of the body, each on what the one before it left, lead from an input and a store to
a rest and a later store, and each of them gives a value. -/
def Reaches (held : AddressSet) (store : Store) (body : Grammar) (input : Input) (values : List Value)
    (rest : Input) (after : Store) : Prop :=
  ∃ fuel, Run.Attempts (body.read fuel) held store input values rest after

/-- From now on every reading comes to a match. -/
def Returns (held : AddressSet) (store : Store) (grammar : Grammar) : Prop :=
  store.FromNowOn held fun wider now => ∀ input, ∃ found after, Finds wider now grammar input found after

variable {held wider : AddressSet} {store middle after now : Store} {body : Grammar} {fuel more : Nat}
  {input between rest left : Input} {value : Value} {values : List Value} {capacity : Capacity}

section Chains

theorem attempts_of_le (enough : fuel ≤ more)
    (chain : Run.Attempts (body.read fuel) held store input values rest after) :
    Run.Attempts (body.read more) held store input values rest after :=
  chain.mono fun found => read_of_le enough found (by simp)

theorem reaches_none (body : Grammar) (input : Input) (store : Store) :
    Reaches held store body input [] input store :=
  ⟨0, .none store input⟩

theorem Reaches.cons (finds : Finds held store body input (.success value between) middle)
    (others : Reaches held middle body between values rest after) :
    Reaches held store body input (value :: values) rest after := by
  obtain ⟨enough, found⟩ := finds.enough
  obtain ⟨fuel, chain⟩ := others
  exact ⟨max enough fuel, .further (found _ (Nat.le_max_left _ _))
    (attempts_of_le (Nat.le_max_right _ _) chain)⟩

/-- A chain is made of any number of its first readings and of those that are left. -/
theorem Reaches.split (reaches : Reaches held store body input values rest after) (count : Nat) :
    ∃ between middle, Reaches held store body input (values.take count) between middle ∧
      Reaches held middle body between (values.drop count) rest after := by
  obtain ⟨fuel, chain⟩ := reaches
  obtain ⟨between, middle, front, back⟩ := chain.split count
  exact ⟨between, middle, ⟨fuel, front⟩, ⟨fuel, back⟩⟩

theorem later_of_attempts (within : held ⊆ wider)
    (chain : Run.Attempts (body.read fuel) wider store input values rest after) :
    Store.Later held store after := by
  induction chain with
  | none store input => exact .refl held store
  | further found _ ih => exact ((read_evolves held fuel body _).later within found).trans ih

/-- Each reading of a body that consumes takes at least one atom. -/
theorem length_of_attempts (consumes : Consumes held store body) (within : held ⊆ wider)
    (chain : Run.Attempts (body.read fuel) wider store input values rest after) :
    values.length + rest.length ≤ input.length := by
  induction chain with
  | none store input => simp
  | further found _ ih =>
    have shorter := consumes (.refl held _) within found
    have others := ih (consumes.later ((read_evolves held fuel body _).later within found))
    rw [List.length_cons]
    omega

end Chains

section Continuing

/-- A loop that could make more attempts than its input has atoms makes no use of the others. -/
theorem readMany_of_enough (consumes : Consumes held store body) (within : held ⊆ wider)
    {attempts others : Nat} (enough : input.length < attempts) (enoughOthers : input.length < others) :
    Run.readMany (body.read fuel) attempts input wider store =
      Run.readMany (body.read fuel) others input wider store := by
  induction attempts generalizing others input store with
  | zero => omega
  | succ attempts ih =>
    obtain ⟨others, rfl⟩ : ∃ fewer, others = fewer + 1 := ⟨others - 1, by omega⟩
    rw [Run.readMany, Run.readMany, Run.bind_apply, Run.bind_apply]
    rcases found : body.read fuel input wider store with
      ⟨⟨⟨value, between⟩ | left⟩ | fault | _, middle⟩
    · have shorter := consumes (.refl held store) within found
      have step := (read_evolves held fuel body input).later within found
      dsimp only
      rw [Run.bind_apply, Run.bind_apply,
        ih (consumes.later step) (by omega) (show between.length < others by omega)]
    · rfl
    · rfl
    · rfl

/-- The loop makes the readings of a chain and goes on behind them, whatever comes of that. -/
theorem read_many_of_chain (consumes : Consumes held store body) (within : held ⊆ wider)
    (chain : Run.Attempts (body.read fuel) wider store input values rest middle) :
    (many body).read fuel input wider store =
      (Match.map (Value.prepend values) <$> (many body).read fuel rest) wider middle := by
  have fits := length_of_attempts consumes within chain
  have step := later_of_attempts within chain
  obtain ⟨spare, attempts⟩ : ∃ spare, input.length + 1 + fuel = values.length + spare :=
    ⟨input.length + 1 + fuel - values.length, by omega⟩
  have loop : Run.readMany (body.read fuel) (input.length + 1 + fuel) input wider store =
      ((fun found => (values ++ found.1, found.2)) <$>
        Run.readMany (body.read fuel) (rest.length + 1 + fuel) rest) wider middle := by
    rw [attempts, Run.readMany_of_chain chain, Run.map_apply, Run.map_apply,
      readMany_of_enough (consumes.later step) within (show rest.length < spare by omega)
        (show rest.length < rest.length + 1 + fuel by omega)]
  rw [read_many, read_many, ← map_eq_pure_bind, ← map_eq_pure_bind, Run.map_apply, loop, ← Run.map_apply,
    ← comp_map, ← comp_map]
  rfl

/-- Counted reading makes the readings of a chain, and behind them those that are missing. -/
theorem read_replicate_of_chain {count : Nat} (fits : values.length + count ≤ capacity.items)
    (chain : Run.Attempts (body.read fuel) held store input values rest middle) :
    (replicate capacity (values.length + count) body).read fuel input held store =
      (Match.map (Value.prepend values) <$> (replicate capacity count body).read fuel rest) held middle := by
  rw [read_replicate, read_replicate, if_neg (by omega), if_neg (by omega), Run.onSuccess_success,
    Run.onSuccess_success, Run.map_apply, Run.readTimes_of_chain chain, ← Run.map_apply, Run.map_map,
    Run.map_map]
  rfl

end Continuing

section Finding

variable {found : Match Value}

theorem finds_many_of_reaches (reaches : Reaches held store body input values rest middle)
    (fails : Finds held middle body rest (.failure left) after) :
    Finds held store (many body) input (.success (.list values) rest) after := by
  obtain ⟨fuel, chain⟩ := reaches
  induction chain with
  | none store input => exact finds_many_nil fails
  | further found _ ih => exact finds_many_cons ⟨fuel, found⟩ (ih fails)

theorem finds_replicate_of_failure {count : Nat} (fits : count < capacity.items)
    (fails : Finds held store body input (.failure left) after) :
    Finds held store (replicate capacity (count + 1) body) input (.failure left) after := by
  obtain ⟨fuel, failed⟩ := fails
  refine ⟨fuel, ?_⟩
  rw [read_replicate, if_neg (by omega)]
  exact Run.onSuccess_of_failure (Run.onSuccess_of_failure failed)

theorem finds_replicate_of_reaches {count : Nat} (fits : values.length + count ≤ capacity.items)
    (reaches : Reaches held store body input values rest middle)
    (finds : Finds held middle (replicate capacity count body) rest found after) :
    Finds held store (replicate capacity (values.length + count) body) input
      (found.map (Value.prepend values)) after := by
  obtain ⟨enough, chain⟩ := reaches
  obtain ⟨fuel, returned⟩ := finds.enough
  refine ⟨max enough fuel, ?_⟩
  rw [read_replicate_of_chain fits (attempts_of_le (Nat.le_max_left _ _) chain), Run.map_apply,
    returned _ (Nat.le_max_right _ _)]
  rfl

/-- As many items as the chain has values are these values. -/
theorem Reaches.finds_replicate (reaches : Reaches held store body input values rest after)
    (fits : values.length ≤ capacity.items) :
    Finds held store (replicate capacity values.length body) input (.success (.list values) rest) after := by
  have finds := finds_replicate_of_reaches (show values.length + 0 ≤ capacity.items from fits) reaches
    (finds_replicate_zero rest after)
  rwa [Nat.add_zero, Match.map, Value.prepend, List.append_nil] at finds

end Finding

end Grammar

end TwoWayGrammar
