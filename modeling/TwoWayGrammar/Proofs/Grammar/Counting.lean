import TwoWayGrammar.Proofs.Grammar.Chain
import TwoWayGrammar.Proofs.Grammar.Rollback
import TwoWayGrammar.Proofs.Grammar.Termination

namespace TwoWayGrammar.Grammar

variable {held wider : AddressSet} {store middle after now : Store} {body : Grammar}
  {input rest left : Input} {value : Value} {values : List Value} {found : Match Value}

section Recurring

/-- With fewer cells held there are more later stores. -/
theorem later_of_subset (within : held ⊆ wider) (later : Store.Later wider store now) :
    Store.Later held store now := by
  refine Relation.ReflTransGen.mono (fun before next change => ?_) _ _ later
  cases change with
  | log same => exact .log same
  | force inside pending => exact .force (AddressSet.Subset.trans within inside) pending
  | collect inside => exact .collect (AddressSet.Subset.trans within inside)

/-- What was found is found again in every later store in which the grammar comes to any match. -/
theorem Finds.again (finds : Finds held store body input found after)
    (later : Store.Later ∅ after now)
    (answers : ∃ other last, Finds wider now body input other last) :
    ∃ log, log.sink.refuses = now.log.sink.refuses ∧ Finds wider now body input found { now with log } := by
  obtain ⟨fuel, returned⟩ := finds
  have recurs : (body.read fuel input).Recurs wider now found :=
    (read_repeatable fuel body input).recurs returned later
  rcases recurs with ⟨fault, stop, stopped⟩ | ⟨log, same, again⟩
  · obtain ⟨other, last, enough, answered⟩ := answers
    exact absurd stopped (faultless_of_returned answered fuel fault stop)
  · exact ⟨log, same, fuel, again⟩

/-- A chain is there again in every later store, as long as the body comes to matches. -/
theorem Reaches.again (returns : Returns held store body)
    (reaches : Reaches held store body input values rest middle)
    (later : Store.Later held middle now) (within : held ⊆ wider) :
    ∃ log, log.sink.refuses = now.log.sink.refuses ∧
      Reaches wider now body input values rest { now with log } := by
  obtain ⟨fuel, chain⟩ := reaches
  induction chain generalizing now with
  | none store input => exact ⟨now.log, rfl, reaches_none body input now⟩
  | @further store between middle input _ _ _ _ found others ih =>
    have step := (read_evolves held fuel body input).later (AddressSet.Subset.refl held) found
    have further := later_of_attempts (AddressSet.Subset.refl held) others
    have reached := (step.trans further).trans later
    obtain ⟨log, same, finds⟩ := Finds.again ⟨fuel, found⟩
      (later_of_subset (AddressSet.empty_subset held) (further.trans later))
      (returns reached within input)
    obtain ⟨last, still, reaches⟩ := ih (returns.later step) (later.trans (Run.later_of_refuses same))
    exact ⟨last, still.trans same, .cons finds reaches⟩

end Recurring

/-- A body that consumes and always comes to a match is read some number of times, and then it fails. -/
theorem exists_reaches (consumes : Consumes held store body) (returns : Returns held store body)
    (input : Input) :
    ∃ values rest left middle after, Reaches held store body input values rest middle ∧
      Finds held middle body rest (.failure left) after := by
  induction length : input.length using Nat.strongRecOn generalizing input store with
  | ind bound ih =>
  subst length
  have within := AddressSet.Subset.refl held
  obtain ⟨found, close, finds⟩ := returns (.refl held store) within input
  cases found with
  | failure left => exact ⟨[], input, left, store, close, reaches_none body input store, finds⟩
  | success value between =>
    obtain ⟨fuel, returned⟩ := finds
    have shorter := consumes (.refl held store) within returned
    have step := (read_evolves held fuel body input).later within returned
    obtain ⟨values, rest, left, middle, after, reaches, fails⟩ :=
      ih _ shorter (consumes.later step) (returns.later step) between rfl
    exact ⟨value :: values, rest, left, middle, after, .cons ⟨fuel, returned⟩ reaches, fails⟩

/-- The readings of a body that consumes and always comes to a match are there again in every store after
the failure behind them. In each of these stores the body fails there as well, both at once and after the
readings. -/
theorem exists_lasting_reaches (consumes : Consumes held store body) (returns : Returns held store body)
    (input : Input) :
    ∃ values rest left middle after, Reaches held store body input values rest middle ∧
      Finds held middle body rest (.failure left) after ∧
      after.FromNowOn held fun wider now =>
        (∃ last, Finds wider now body rest (.failure left) last) ∧
          ∃ between last, Reaches wider now body input values rest between ∧
            Finds wider between body rest (.failure left) last := by
  obtain ⟨values, rest, left, middle, after, reaches, fails⟩ := exists_reaches consumes returns input
  have within := AddressSet.Subset.refl held
  have before : Store.Later held store middle := by
    obtain ⟨fuel, chain⟩ := reaches
    exact later_of_attempts within chain
  have step := fails.later within
  refine ⟨values, rest, left, middle, after, reaches, fails, ?_⟩
  intro now later wider inside
  have failsAgain {now : Store} (later : Store.Later held after now) :
      ∃ last, Finds wider now body rest (.failure left) last := by
    obtain ⟨log, -, fails⟩ := fails.again (later_of_subset (AddressSet.empty_subset held) later)
      (returns ((before.trans step).trans later) inside rest)
    exact ⟨_, fails⟩
  obtain ⟨log, same, again⟩ := reaches.again returns (step.trans later) inside
  obtain ⟨last, ends⟩ := failsAgain (later.trans (Run.later_of_refuses same))
  exact ⟨failsAgain later, _, last, again, ends⟩

/-- Counted reading along the values that a loop has found, with the rest that the loop has left and what
the body shows there. -/
structure CountsAlong (held : AddressSet) (store : Store) (body : Grammar) (input : Input)
    (values : List Value) (rest left : Input) : Prop where
  /-- As many items as there are values, or fewer, are the first values. What is left is where their
  readings lead to. -/
  succeeds : ∀ capacity : Capacity, ∀ count ≤ capacity.items, count ≤ values.length → ∃ between last,
    Finds held store (replicate capacity count body) input
        (.success (.list (values.take count)) between) last ∧
      Reaches held store body input (values.take count) between last ∧
        (count = values.length → between = rest)
  /-- More items are not there, and the failure is the one that has ended the loop. -/
  fails : ∀ capacity : Capacity, ∀ count ≤ capacity.items, values.length < count → ∃ last,
    Finds held store (replicate capacity count body) input (.failure left) last

theorem countsAlong_of_reaches (reaches : Reaches held store body input values rest middle)
    (fails : Finds held middle body rest (.failure left) after) :
    CountsAlong held store body input values rest left where
  succeeds capacity count fits fewer := by
    obtain ⟨between, last, front, back⟩ := reaches.split count
    have length : (values.take count).length = count := List.length_take_of_le fewer
    have finds := front.finds_replicate (show (values.take count).length ≤ capacity.items by omega)
    rw [length] at finds
    refine ⟨between, last, finds, front, fun all => ?_⟩
    rw [all, List.drop_length] at back
    obtain ⟨fuel, chain⟩ := back
    cases chain
    rfl
  fails capacity count fits more := by
    obtain ⟨missing, rfl⟩ : ∃ missing, count = values.length + (missing + 1) :=
      ⟨count - values.length - 1, by omega⟩
    have short := finds_replicate_of_failure (show missing < capacity.items by omega) fails
    exact ⟨after, finds_replicate_of_reaches fits reaches short⟩

theorem returns_primitive (base : Primitive) : Returns held store (primitive base) :=
  fun now _ _ _ input => ⟨_, _, finds_primitive base input now⟩

theorem Returns.sequence {first second : Grammar} (returnsFirst : Returns held store first)
    (returnsSecond : Returns held store second) : Returns held store (Grammar.sequence first second) := by
  intro now reached wider within input
  obtain ⟨found, middle, finds⟩ := returnsFirst reached within input
  cases found with
  | failure left => exact ⟨_, _, finds_sequence_of_failure finds⟩
  | success value between =>
    obtain ⟨found, after, findsSecond⟩ := returnsSecond (reached.trans (finds.later within)) within between
    cases found with
    | failure left => exact ⟨_, _, finds_sequence_of_second_failure finds findsSecond⟩
    | success other rest => exact ⟨_, _, finds_sequence finds findsSecond⟩

/-- The loop over a body that consumes and always comes to a match succeeds, and the body fails on what the
loop leaves. Counted reading goes along with the loop, in the same store and in every store after the
loop. -/
theorem countsAlong_of_consumes (consumes : Consumes held store body) (returns : Returns held store body)
    (input : Input) :
    ∃ values rest left after,
      Finds held store (many body) input (.success (.list values) rest) after ∧
      CountsAlong held store body input values rest left ∧
      after.FromNowOn held fun wider now =>
        (∃ last, Finds wider now body rest (.failure left) last) ∧
          CountsAlong wider now body input values rest left := by
  obtain ⟨values, rest, left, middle, after, reaches, fails, lasting⟩ :=
    exists_lasting_reaches consumes returns input
  refine ⟨values, rest, left, after, finds_many_of_reaches reaches fails,
    countsAlong_of_reaches reaches fails, ?_⟩
  intro now later wider inside
  obtain ⟨missed, between, last, again, ends⟩ := lasting later inside
  exact ⟨missed, countsAlong_of_reaches again ends⟩

/-- A letter with its digit is there once. Reading two of them fails behind the second letter, while the
loop leaves that letter. -/
theorem countsAlong_labelled :
    let store := Store.new .unlimited
    let input := "a1b".toList.map .char
    Consumes ∅ store labelled ∧ Returns ∅ store labelled ∧
    Finds ∅ store (many labelled) input
      (.success (.list [.pair (.char 'a') (.char '1')]) [.char 'b']) store ∧
    CountsAlong ∅ store labelled input [.pair (.char 'a') (.char '1')] [.char 'b'] [] := by
  have consumes : Consumes ∅ (Store.new .unlimited) labelled :=
    (consumes_primitive (.satisfy _) trivial).sequence _
  have returns : Returns ∅ (Store.new .unlimited) labelled :=
    (returns_primitive _).sequence (returns_primitive _)
  have looped : Finds ∅ (Store.new .unlimited) (many labelled) ("a1b".toList.map .char)
      (.success (.list [.pair (.char 'a') (.char '1')]) [.char 'b']) (Store.new .unlimited) := ⟨0, rfl⟩
  have failed : Finds ∅ (Store.new .unlimited) labelled [.char 'b'] (.failure []) (Store.new .unlimited) :=
    ⟨0, rfl⟩
  obtain ⟨values, rest, left, after, finds, counts, always⟩ :=
    countsAlong_of_consumes consumes returns ("a1b".toList.map .char)
  obtain ⟨same, rfl⟩ := finds.unique looped
  obtain ⟨rfl, rfl⟩ : values = [.pair (.char 'a') (.char '1')] ∧ rest = [.char 'b'] := by simpa using same
  obtain ⟨⟨last, ends⟩, -⟩ := always (.refl ∅ _) (AddressSet.Subset.refl ∅)
  obtain rfl : left = [] := by simpa using (ends.unique failed).1
  exact ⟨consumes, returns, looped, counts⟩

end TwoWayGrammar.Grammar
