import TwoWayGrammar.Proofs.Grammar.Clauses
import TwoWayGrammar.Proofs.Run.Mapping
import TwoWayGrammar.Proofs.Run.Repetition

namespace TwoWayGrammar

namespace Value

/-- Three parts, the first two of them in a pair. -/
def pairedLeft : Value × Value × Value → Value
  | (first, second, third) => .pair (.pair first second) third

/-- Three parts, the last two of them in a pair. -/
def pairedRight : Value × Value × Value → Value
  | (first, second, third) => .pair first (.pair second third)

/-- One of three, the first two of them as one alternative. -/
def nestedLeft : Value ⊕ Value ⊕ Value → Value
  | .inl first => .left (.left first)
  | .inr (.inl second) => .left (.right second)
  | .inr (.inr third) => .right third

/-- One of three, the last two of them as one alternative. -/
def nestedRight : Value ⊕ Value ⊕ Value → Value
  | .inl first => .left first
  | .inr (.inl second) => .right (.left second)
  | .inr (.inr third) => .right (.right third)

/-- A part with one of two others, as one of two pairs. -/
def distributed : Value × (Value ⊕ Value) → Value
  | (first, .inl second) => .left (.pair first second)
  | (first, .inr third) => .right (.pair first third)

/-- A part with one of two others, as a pair. -/
def factored : Value × (Value ⊕ Value) → Value
  | (first, .inl second) => .pair first (.left second)
  | (first, .inr third) => .pair first (.right third)

/-- A list as two lists, the first of them with so many items as the count says if there are so many. -/
def splitAt (count : Nat) (values : List Value) : Value :=
  .pair (.list (values.take count)) (.list (values.drop count))

end Value

namespace Prism

/-- A pair with a unit in front of the value. -/
def withoutFirst : ValuePrism :=
  iso (fun | .pair _ value => value | other => other) fun value => .pair .unit value

/-- A pair with a unit behind the value. -/
def withoutSecond : ValuePrism :=
  iso (fun | .pair value _ => value | other => other) fun value => .pair value .unit

end Prism

namespace Run

variable {α β γ : Type}

/-- Reading a number of times and then further times is reading the total of times. -/
theorem readTimes_split (item : Input → Run (Match α)) (combine : List α → List α → β)
    (first second : Nat) (input : Input) :
    (onSuccess (readTimes item first input) fun values rest =>
      onSuccess (readTimes item second rest) fun others last =>
        return .success (combine values others) last) =
      Match.map (fun values => combine (values.take first) (values.drop first)) <$>
        readTimes item (first + second) input := by
  -- The values read so far go into the way in which the others are combined.
  induction first generalizing combine input with
  | zero =>
    rw [Nat.zero_add, readTimes, onSuccess_pure_success, onSuccess_success]
    rfl
  | succ first ih =>
    rw [Nat.add_right_comm, readTimes, readTimes, onSuccess_assoc, map_onSuccess]
    congr 1
    funext value rest
    rw [onSuccess_assoc, map_onSuccess]
    simp only [onSuccess_pure_success, map_pure]
    rw [ih fun values others => combine (value :: values) others]
    exact (onSuccess_success _ _).symm

theorem writeEach_append (item : α → Input → Run Input) (values others : List α) (rest : Input) :
    writeEach item (values ++ others) rest =
      (writeEach item others rest >>= fun after => writeEach item values after) := by
  induction values with
  | nil => exact (bind_pure _).symm
  | cons value values ih =>
    rw [List.cons_append, writeEach, ih, bind_assoc]
    rfl

end Run

namespace Grammar

variable (first second third body mark : Grammar)

/-- Grammars correspond when each reads and writes the same parts in its own arrangement. -/
structure Corresponds {parts : Type} (one other : Grammar) (here there : parts → Value) : Prop where
  read : ∀ fuel input, ∃ run : Run (Match parts),
    one.read fuel input = Match.map here <$> run ∧ other.read fuel input = Match.map there <$> run
  write : ∀ fuel content rest, one.write fuel (here content) rest = other.write fuel (there content) rest

/-- Grammars correspond as far as neither of them stops. What they log on the way may differ. -/
structure CorrespondsUnlessStopped {parts : Type} (one other : Grammar) (here there : parts → Value) :
    Prop where
  read : ∀ fuel input held store, ¬ (one.read fuel input).Stops held store →
    ¬ (other.read fuel input).Stops held store → ∃ outcome : Outcome (Match parts),
      (one.read fuel input held store).1 = outcome.map (Match.map here) ∧
        (other.read fuel input held store).1 = outcome.map (Match.map there)
  write : ∀ fuel content rest, one.write fuel (here content) rest = other.write fuel (there content) rest

/-- Grammars are interchangeable when they read and write in the same way. -/
structure Interchangeable (one other : Grammar) : Prop where
  read : ∀ fuel input, one.read fuel input = other.read fuel input
  write : ∀ fuel value rest, one.write fuel value rest = other.write fuel value rest

theorem sequence_assoc :
    Corresponds (sequence (sequence first second) third) (sequence first (sequence second third))
      Value.pairedLeft Value.pairedRight where
  read fuel input := by
    refine ⟨Run.onSuccess (first.read fuel input) fun value rest =>
      Run.onSuccess (second.read fuel rest) fun next between =>
        Run.onSuccess (third.read fuel between) fun content last =>
          return .success (value, next, content) last, ?_, ?_⟩
    · simp only [read_sequence, Run.onSuccess_assoc, Run.onSuccess_pure_success, Run.map_onSuccess,
        map_pure]
      rfl
    · simp only [read_sequence, Run.onSuccess_assoc, Run.onSuccess_pure_success, Run.map_onSuccess,
        map_pure]
      rfl
  write := by
    rintro fuel ⟨value, next, content⟩ rest
    simp only [Value.pairedLeft, Value.pairedRight, write_sequence, bind_assoc]

theorem choice_assoc :
    Corresponds (choice (choice first second) third) (choice first (choice second third))
      Value.nestedLeft Value.nestedRight where
  read fuel input := by
    refine ⟨Run.onFailure (Match.map .inl <$> first.read fuel input)
      (Run.onFailure (Match.map (.inr ∘ .inl) <$> second.read fuel input)
        (Match.map (.inr ∘ .inr) <$> third.read fuel input)), ?_, ?_⟩
    · simp only [read_choice, Run.onSuccess_success, Run.map_onFailure, Run.map_map,
        Run.onFailure_assoc]
      rfl
    · simp only [read_choice, Run.onSuccess_success, Run.map_onFailure, Run.map_map]
      rfl
  write := by
    rintro fuel (value | value | value) rest
    · simp only [Value.nestedLeft, Value.nestedRight, write_choice_left]
    · simp only [Value.nestedLeft, Value.nestedRight, write_choice_left, write_choice_right]
    · simp only [Value.nestedLeft, Value.nestedRight, write_choice_right]

/-- Reading a part beside a value that was read before. -/
def readBeside (fuel : Nat) (side : Value → Value ⊕ Value) (grammar : Grammar) (value : Value)
    (rest : Input) : Run (Match (Value × (Value ⊕ Value))) :=
  Match.map (fun content => (value, side content)) <$> grammar.read fuel rest

theorem readBeside_evolves (fuel : Nat) (side : Value → Value ⊕ Value) (grammar : Grammar)
    (value : Value) (rest : Input) : Run.Evolves ∅ (grammar.readBeside fuel side value rest) :=
  Run.Evolves.map (Match.map fun content => (value, side content)) (read_evolves ∅ fuel grammar rest)

theorem readBeside_blind (fuel : Nat) (side : Value → Value ⊕ Value) (grammar : Grammar)
    (value : Value) (rest : Input) : Run.Blind (grammar.readBeside fuel side value rest) :=
  Run.Blind.map (Match.map fun content => (value, side content)) (read_blind fuel grammar rest)

theorem read_choice_of_sequences (fuel : Nat) (input : Input) :
    (choice (sequence first second) (sequence first third)).read fuel input =
      Match.map Value.distributed <$>
        Run.onFailure (Run.onSuccess (first.read fuel input) (second.readBeside fuel .inl))
          (Run.onSuccess (first.read fuel input) (third.readBeside fuel .inr)) := by
  simp only [readBeside, read_choice, read_sequence, Run.onSuccess_success, Run.map_onFailure,
    Run.map_onSuccess, Run.map_map]
  rfl

theorem read_sequence_of_choice (fuel : Nat) (input : Input) :
    (sequence first (choice second third)).read fuel input =
      Match.map Value.factored <$>
        Run.onSuccess (first.read fuel input) fun value rest =>
          Run.onFailure (second.readBeside fuel .inl value rest)
            (third.readBeside fuel .inr value rest) := by
  simp only [readBeside, read_choice, read_sequence, Run.onSuccess_success, Run.map_onFailure,
    Run.map_onSuccess, Run.map_map]
  rfl

/-- A first part may be taken out of both alternatives. Inside of them it is read again after the first
alternative failed, and comes to the same match again. -/
theorem choice_sequence :
    CorrespondsUnlessStopped (choice (sequence first second) (sequence first third))
      (sequence first (choice second third)) Value.distributed Value.factored where
  read fuel input held store := by
    rw [read_choice_of_sequences, read_sequence_of_choice]
    intro goesOn alsoGoesOn
    have repeatable : Run.Repeatable (first.read fuel input) := read_repeatable fuel first input
    rcases Run.onFailure_factored repeatable (readBeside_evolves fuel .inl second)
      (readBeside_blind fuel .inr third) held store with stops | stops | same
    · exact absurd (stops.map _) goesOn
    · exact absurd (stops.map _) alsoGoesOn
    · rw [Run.map_apply, Run.map_apply, same]
      exact ⟨_, rfl, rfl⟩
  write := by
    rintro fuel ⟨value, content | content⟩ rest
    · simp only [Value.distributed, Value.factored, write_choice_left, write_sequence]
    · simp only [Value.distributed, Value.factored, write_choice_right, write_sequence]

theorem replicate_add {capacity : Capacity} {first second : Nat}
    (enough : first + second ≤ capacity.items) :
    Corresponds (replicate capacity (first + second) body)
      (sequence (replicate capacity first body) (replicate capacity second body)) .list
      (Value.splitAt first) where
  read fuel input := by
    refine ⟨Run.readTimes (body.read fuel) (first + second) input, ?_, ?_⟩
    · rw [read_replicate, if_neg (by omega), Run.onSuccess_success]
    · rw [read_sequence, read_replicate, if_neg (by omega), Run.onSuccess_assoc]
      simp only [read_replicate, if_neg (show ¬ capacity.items < second by omega), Run.onSuccess_assoc,
        Run.onSuccess_pure_success]
      exact Run.readTimes_split _ (fun values others => Value.pair (.list values) (.list others)) _ _ _
  write fuel values rest := by
    rw [Value.splitAt, write_sequence, write_replicate, write_replicate, List.take_add,
      Run.writeEach_append]
    simp only [write_replicate, List.take_take, Nat.min_self]

theorem discardThen_eq_adapt :
    Interchangeable (discardThen mark body) (adapt Prism.withoutFirst (sequence mark body)) where
  read fuel input := by
    rw [read_discardThen, read_adapt, read_sequence, Run.onSuccess_assoc]
    simp only [Run.onSuccess_assoc, Run.onSuccess_pure_success]
    congr 1
    funext value rest
    exact (Run.onSuccess_pure _).symm
  write fuel value rest := by
    rw [write_discardThen, write_adapt, Prism.withoutFirst, Prism.review_iso, write_sequence]

theorem thenDiscard_eq_adapt :
    Interchangeable (thenDiscard body mark) (adapt Prism.withoutSecond (sequence body mark)) where
  read fuel input := by
    rw [read_thenDiscard, read_adapt, read_sequence]
    simp only [Run.onSuccess_assoc, Run.onSuccess_pure_success]
    rfl
  write fuel value rest := by
    rw [write_thenDiscard, write_adapt, Prism.withoutSecond, Prism.review_iso, write_sequence]

theorem between_eq_thenDiscard (opening closing : Grammar) :
    Interchangeable (between opening closing body)
      (thenDiscard (discardThen opening body) closing) where
  read fuel input := by
    rw [between, read_discardThen, read_thenDiscard, read_discardThen, Run.onSuccess_assoc]
    simp only [read_thenDiscard]
  write fuel value rest := by
    rw [between, write_discardThen, write_thenDiscard, write_thenDiscard, bind_assoc]
    simp only [write_discardThen]

theorem adapt_adapt (outer inner : ValuePrism) :
    Interchangeable (adapt inner (adapt outer body)) (adapt (outer.compose inner) body) where
  read fuel input := by
    rw [read_adapt, read_adapt, read_adapt, Run.onSuccess_assoc]
    congr 1
    funext representation rest
    rw [Prism.preview_compose]
    cases outer.preview representation with
    | some value => exact Run.onSuccess_pure_success value rest _
    | none => rfl
  write fuel value rest := by
    rw [write_adapt, write_adapt, write_adapt, Prism.review_compose]

/-- The laws of the combinators, for values, remainders and failures alike. Sequences and alternatives
regroup, a first part moves out of two alternatives, marks are parts without a value, changes of the value
compose, and repetitions add up. -/
theorem combinators_correspond :
    (∀ first second third,
      Corresponds (sequence (sequence first second) third) (sequence first (sequence second third))
        Value.pairedLeft Value.pairedRight) ∧
    (∀ first second third,
      Corresponds (choice (choice first second) third) (choice first (choice second third))
        Value.nestedLeft Value.nestedRight) ∧
    (∀ first second third,
      CorrespondsUnlessStopped (choice (sequence first second) (sequence first third))
        (sequence first (choice second third)) Value.distributed Value.factored) ∧
    (∀ body mark,
      Interchangeable (discardThen mark body) (adapt Prism.withoutFirst (sequence mark body)) ∧
      Interchangeable (thenDiscard body mark) (adapt Prism.withoutSecond (sequence body mark))) ∧
    (∀ body opening closing,
      Interchangeable (between opening closing body)
        (thenDiscard (discardThen opening body) closing)) ∧
    (∀ body outer inner,
      Interchangeable (adapt inner (adapt outer body)) (adapt (outer.compose inner) body)) ∧
    ∀ (capacity : Capacity) body first second, first + second ≤ capacity.items →
      Corresponds (replicate capacity (first + second) body)
        (sequence (replicate capacity first body) (replicate capacity second body)) .list
        (Value.splitAt first) := by
  refine ⟨sequence_assoc, choice_assoc, choice_sequence, ?_, between_eq_thenDiscard, adapt_adapt, ?_⟩
  · intro body mark
    exact ⟨discardThen_eq_adapt body mark, thenDiscard_eq_adapt body mark⟩
  · intro capacity body first second enough
    exact replicate_add body enough

/-- A letter with a digit or with a letter behind it is read from "ab" in both arrangements, and three
letters are one letter and two more. -/
theorem combinators_correspond_letters :
    let letter := satisfy (Test.inClass .letter)
    let digit := satisfy (Test.inClass .digit)
    let apart := choice (sequence letter digit) (sequence letter letter)
    let together := sequence letter (choice digit letter)
    let input : Input := "ab".toList.map .char
    let store := Store.new .unlimited
    (¬ (apart.read 0 input).Stops ∅ store ∧ ¬ (together.read 0 input).Stops ∅ store ∧
      ∃ outcome : Outcome (Match (Value × (Value ⊕ Value))),
        (apart.read 0 input ∅ store).1 = outcome.map (Match.map Value.distributed) ∧
          (together.read 0 input ∅ store).1 = outcome.map (Match.map Value.factored)) ∧
    1 + 2 ≤ Capacity.bytes.items ∧
      Corresponds (replicate .bytes (1 + 2) letter)
        (sequence (replicate .bytes 1 letter) (replicate .bytes 2 letter)) .list (Value.splitAt 1) := by
  intro letter digit apart together input store
  obtain ⟨_, _, factor, _, _, _, add⟩ := combinators_correspond
  have apartReturns : apart.read 0 input ∅ store =
      (.returned (.success (.right (.pair (.char 'a') (.char 'b'))) []), store) := rfl
  have togetherReturns : together.read 0 input ∅ store =
      (.returned (.success (.pair (.char 'a') (.right (.char 'b'))) []), store) := rfl
  have apartGoesOn : ¬ (apart.read 0 input).Stops ∅ store := by
    rintro ⟨fault, after, stopped⟩
    simp [apartReturns] at stopped
  have togetherGoesOn : ¬ (together.read 0 input).Stops ∅ store := by
    rintro ⟨fault, after, stopped⟩
    simp [togetherReturns] at stopped
  have enough : 1 + 2 ≤ Capacity.bytes.items := by decide
  exact ⟨⟨apartGoesOn, togetherGoesOn,
    (factor letter digit letter).read 0 input ∅ store apartGoesOn togetherGoesOn⟩, enough,
    add .bytes letter 1 2 enough⟩

end Grammar

end TwoWayGrammar
