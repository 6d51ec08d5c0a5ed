import TwoWayGrammar.Proofs.Grammar.Counting
import TwoWayGrammar.Proofs.Law.Fallback
import TwoWayGrammar.Proofs.Law.ReadAfterWrite

namespace TwoWayGrammar.Grammar

variable {held wider : AddressSet} {store middle after now : Store} {body : Grammar}
  {text rest left : Input} {values : List Value} {capacity : Capacity} {count : Nat} {found : Match Value}

/-- With enough fuel, reading the text comes to what reading the rest with another grammar comes to in a
further store, with the values put in front of what that finds. -/
def ContinuesAs (held : AddressSet) (store : Store) (grammar : Grammar) (text : Input) (values : List Value)
    (after : Store) (other : Grammar) (rest : Input) : Prop :=
  ∃ enough, ∀ fuel, enough ≤ fuel → grammar.read fuel text held store =
    (Match.map (Value.prepend values) <$> other.read fuel rest) held after

section Continuing

variable {grammar other : Grammar}

/-- What is found behind the values is found with the values in front. -/
theorem ContinuesAs.finds (continues : ContinuesAs held store grammar text values middle other rest)
    (finds : Finds held middle other rest found after) :
    Finds held store grammar text (found.map (Value.prepend values)) after := by
  obtain ⟨enough, same⟩ := continues
  obtain ⟨fuel, returned⟩ := finds.enough
  refine ⟨max enough fuel, ?_⟩
  rw [same _ (Nat.le_max_left _ _), Run.map_apply, returned _ (Nat.le_max_right _ _)]
  rfl

/-- Nothing else is found. -/
theorem ContinuesAs.exists_finds (continues : ContinuesAs held store grammar text values middle other rest)
    (finds : Finds held store grammar text found after) :
    ∃ behind, Finds held middle other rest behind after ∧ found = behind.map (Value.prepend values) := by
  obtain ⟨enough, same⟩ := continues
  obtain ⟨fuel, returned⟩ := finds.enough
  have ran := same (max enough fuel) (Nat.le_max_left _ _)
  rw [returned _ (Nat.le_max_right _ _), map_eq_pure_bind] at ran
  obtain ⟨behind, close, read, shown⟩ := Run.returned_of_bind ran.symm
  obtain ⟨rfl, rfl⟩ := Run.returned_of_pure shown
  exact ⟨behind, ⟨_, read⟩, rfl⟩

theorem Reaches.continues_many (consumes : Consumes held store body) (within : held ⊆ wider)
    (reaches : Reaches wider store body text values rest after) :
    ContinuesAs wider store (many body) text values after (many body) rest := by
  obtain ⟨enough, chain⟩ := reaches
  exact ⟨enough, fun fuel more => read_many_of_chain consumes within (attempts_of_le more chain)⟩

theorem Reaches.continues_replicate (fits : values.length + count ≤ capacity.items)
    (reaches : Reaches held store body text values rest after) :
    ContinuesAs held store (replicate capacity (values.length + count) body) text values after
      (replicate capacity count body) rest := by
  obtain ⟨enough, chain⟩ := reaches
  exact ⟨enough, fun fuel more => read_replicate_of_chain fits (attempts_of_le more chain)⟩

/-- The loop finds the values and stops there exactly when the body fails behind them. -/
theorem ContinuesAs.finds_many_iff
    (continues : ContinuesAs held store (many body) text values middle (many body) rest) :
    (∃ after, Finds held store (many body) text (.success (.list values) rest) after) ↔
      FailsNow held middle body rest := by
  constructor
  · rintro ⟨after, finds⟩
    obtain ⟨behind, ⟨fuel, returned⟩, same⟩ := continues.exists_finds finds
    obtain ⟨others, last, close, left, rfl, chain, failed⟩ := attempts_of_read_many returned
    obtain ⟨rfl, rfl⟩ : others = [] ∧ rest = last := by
      simpa [Match.map, Value.prepend] using same
    cases chain
    exact ⟨left, after, fuel, failed⟩
  · rintro ⟨left, after, fails⟩
    have finds := continues.finds (finds_many_nil fails)
    rw [Match.map, Value.prepend, List.append_nil] at finds
    exact ⟨after, finds⟩

end Continuing

section Writing

/-- Writing with a count writes no more values than the count. -/
theorem puts_replicate_iff : Puts held store (replicate capacity count body) (.list values) rest text after ↔
    Puts held store (many body) (.list (values.take count)) rest text after := by
  simp only [Puts, write_replicate, write_many]

/-- Values that a body recovers are written one in front of the other, and from then on a chain of readings
leads through them to the rest. -/
theorem puts_many_of_recovers (recovers : ∀ value ∈ values, ∀ rest, Recovers held store body value rest)
    (rest : Input) :
    ∃ text middle, Puts held store (many body) (.list values) rest text middle ∧
      middle.FromNowOn held fun wider now => ∃ last, Reaches wider now body text values rest last := by
  have within := AddressSet.Subset.refl held
  -- The values are written from the last to the first, so each is read in front of those after it.
  induction values with
  | nil =>
    exact ⟨rest, store, puts_many_nil rest store, fun now _ _ _ => ⟨now, reaches_none body rest now⟩⟩
  | cons value values ih =>
    obtain ⟨between, middle, putsOthers, readsOthers⟩ :=
      ih fun other member => recovers other (List.mem_cons_of_mem value member)
    obtain ⟨text, after, puts, reads⟩ :=
      recovers value List.mem_cons_self between (putsOthers.later within) within
    refine ⟨text, after, puts_many_cons putsOthers puts, ?_⟩
    intro now later wider inside
    obtain ⟨close, finds⟩ := reads later inside
    have step := ((puts.later within).trans later).trans (finds.later inside)
    obtain ⟨last, reaches⟩ := readsOthers step inside
    exact ⟨last, .cons finds reaches⟩

end Writing

/-- What the values come to when a repetition of the body writes them in front of the rest and is read from
then on. -/
structure RepetitionTrips (held : AddressSet) (store : Store) (body : Grammar) (values : List Value)
    (rest : Input) : Prop where
  /-- The loop reads the values and goes on behind them. -/
  many_continues : ∃ text middle, Puts held store (many body) (.list values) rest text middle ∧
    middle.FromNowOn held fun wider now => ∃ last, Reaches wider now body text values rest last ∧
      ContinuesAs wider now (many body) text values last (many body) rest
  /-- The loop gives back just the values where the body fails behind them. -/
  many_recovers : ∃ text middle last, Puts held store (many body) (.list values) rest text middle ∧
    Reaches held middle body text values rest last ∧
      (RecoversNow held store (many body) (.list values) rest ↔ FailsNow held last body rest)
  /-- No more values than the count are written, and these are read. -/
  replicate_reads : ∀ capacity : Capacity, ∀ count ≤ capacity.items, count ≤ values.length → ∃ text middle,
    Puts held store (replicate capacity count body) (.list values) rest text middle ∧
      ReadsBack held middle (replicate capacity count body) text (.list (values.take count)) rest
  /-- If there are fewer values than the count, they are read and the others are taken from the rest. -/
  replicate_continues : ∀ capacity : Capacity, ∀ count ≤ capacity.items, values.length < count →
    ∃ text middle,
    Puts held store (replicate capacity count body) (.list values) rest text middle ∧
      middle.FromNowOn held fun wider now => ∃ last, Reaches wider now body text values rest last ∧
        ContinuesAs wider now (replicate capacity count body) text values last
          (replicate capacity (count - values.length) body) rest

/-- Values that a body recovers in front of everything make these round trips in front of every rest, when
the body consumes. -/
theorem repetitionTrips_of_recovers (consumes : Consumes held store body)
    (recovers : ∀ value ∈ values, ∀ rest, Recovers held store body value rest) (rest : Input) :
    RepetitionTrips held store body values rest := by
  have within := AddressSet.Subset.refl held
  obtain ⟨text, middle, puts, reads⟩ := puts_many_of_recovers recovers rest
  have written := puts.later within
  refine ⟨⟨text, middle, puts, ?_⟩, ?_, ?_, ?_⟩
  · intro now later wider inside
    obtain ⟨last, reaches⟩ := reads later inside
    exact ⟨last, reaches, reaches.continues_many (consumes.later (written.trans later)) inside⟩
  · obtain ⟨last, reaches⟩ := reads (.refl held middle) within
    refine ⟨text, middle, last, puts, reaches, ?_⟩
    rw [recoversNow_of_puts_iff puts]
    exact (reaches.continues_many (consumes.later written) within).finds_many_iff
  · intro capacity count fits fewer
    obtain ⟨text, middle, puts, reads⟩ :=
      puts_many_of_recovers (fun value member => recovers value (List.mem_of_mem_take member)) rest
    refine ⟨text, middle, puts_replicate_iff.mpr puts, ?_⟩
    intro now later wider inside
    have length : (values.take count).length = count := List.length_take_of_le fewer
    obtain ⟨last, reaches⟩ := reads later inside
    have finds := reaches.finds_replicate (show (values.take count).length ≤ capacity.items by omega)
    rw [length] at finds
    exact ⟨last, finds⟩
  · intro capacity count fits more
    have all : values.take count = values := List.take_of_length_le (Nat.le_of_lt more)
    refine ⟨text, middle, puts_replicate_iff.mpr (by rwa [all]), ?_⟩
    intro now later wider inside
    obtain ⟨last, reaches⟩ := reads later inside
    obtain ⟨missing, rfl⟩ : ∃ missing, count = values.length + missing :=
      ⟨count - values.length, by omega⟩
    refine ⟨last, reaches, ?_⟩
    rw [Nat.add_sub_cancel_left]
    exact reaches.continues_replicate fits

/-- A letter. -/
def letter : Grammar := satisfy (Test.inClass .letter)

/-- Two letters are written in front of a third one. The loop takes the third one as well, so it does not
give back what was written, and neither does reading with a count of three. -/
theorem repetitionTrips_letter :
    let store := Store.new .unlimited
    let values : List Value := [.char 'a', .char 'b']
    Consumes ∅ store letter ∧ (∀ value ∈ values, ∀ rest, Recovers ∅ store letter value rest) ∧
    RepetitionTrips ∅ store letter values [.char 'c'] ∧
    ¬ RecoversNow ∅ store (many letter) (.list values) [.char 'c'] ∧
    ∃ text middle after, Puts ∅ store (replicate .bytes 3 letter) (.list values) [.char 'c'] text middle ∧
      Finds ∅ middle (replicate .bytes 3 letter) text
        (.success (.list (values ++ [.char 'c'])) []) after := by
  have consumes : Consumes ∅ (Store.new .unlimited) letter := consumes_primitive _ trivial
  have recovers : ∀ value ∈ [Value.char 'a', .char 'b'], ∀ rest,
      Recovers ∅ (Store.new .unlimited) letter value rest := by
    intro value member rest
    simp only [List.mem_cons, List.not_mem_nil, or_false] at member
    rcases member with rfl | rfl
    · exact recovers_primitive rfl rfl
    · exact recovers_primitive rfl rfl
  have trips := repetitionTrips_of_recovers consumes recovers [.char 'c']
  refine ⟨consumes, recovers, trips, ?_, ?_⟩
  · obtain ⟨text, middle, last, puts, reaches, recovered⟩ := trips.many_recovers
    rw [recovered]
    rintro ⟨left, after, fails⟩
    exact (finds_primitive _ [.char 'c'] last).not_failure fails
  · obtain ⟨text, middle, puts, continues⟩ := trips.replicate_continues .bytes 3 (by decide) (by decide)
    obtain ⟨last, -, continues⟩ := continues (.refl ∅ middle) (AddressSet.Subset.refl ∅)
    have third : Finds ∅ last (replicate .bytes 1 letter) [.char 'c']
        (.success (.list [.char 'c']) []) last := ⟨0, rfl⟩
    exact ⟨text, middle, last, puts, continues.finds third⟩

end TwoWayGrammar.Grammar
