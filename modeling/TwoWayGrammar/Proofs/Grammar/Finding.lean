import TwoWayGrammar.Proofs.Run.Fuel
import TwoWayGrammar.Proofs.Store.History

namespace TwoWayGrammar.Grammar

/-- Reading with enough fuel finds the match and leads to the store after it. -/
def Finds (held : AddressSet) (store : Store) (grammar : Grammar) (input : Input)
    (found : Match Value) (after : Store) : Prop :=
  ∃ fuel, grammar.read fuel input held store = (.returned found, after)

/-- Writing with enough fuel puts the value in front of the rest and leads to the store after it. -/
def Puts (held : AddressSet) (store : Store) (grammar : Grammar) (value : Value) (rest text : Input)
    (after : Store) : Prop :=
  ∃ fuel, grammar.write fuel value rest held store = (.returned text, after)

/-- Every value that the grammar reads in a later store has the property. -/
def Yields (held : AddressSet) (store : Store) (grammar : Grammar) (property : Value → Prop) :
    Prop :=
  store.FromNowOn held fun wider now => ∀ ⦃fuel input value rest after⦄,
    grammar.read fuel input wider now = (.returned (.success value rest), after) → property value

/-- Every success of the grammar in a later store leaves less than its input. -/
def Consumes (held : AddressSet) (store : Store) (grammar : Grammar) : Prop :=
  store.FromNowOn held fun wider now => ∀ ⦃fuel input value rest after⦄,
    grammar.read fuel input wider now = (.returned (.success value rest), after) →
      rest.length < input.length

variable {held wider : AddressSet} {store middle after now : Store} {cell : Address}
  {grammar other first second body mark determinant : Grammar} {input between rest last text : Input}
  {value : Value} {found foundOther : Match Value} {capacity : Capacity}

/-- What was found is found with any greater fuel. -/
theorem Finds.enough (finds : Finds held store grammar input found after) :
    ∃ enough, ∀ fuel, enough ≤ fuel →
      grammar.read fuel input held store = (.returned found, after) := by
  obtain ⟨enough, returned⟩ := finds
  exact ⟨enough, fun fuel more => read_of_le more returned (by simp)⟩

theorem Puts.enough (puts : Puts held store grammar value rest text after) :
    ∃ enough, ∀ fuel, enough ≤ fuel →
      grammar.write fuel value rest held store = (.returned text, after) := by
  obtain ⟨enough, returned⟩ := puts
  exact ⟨enough, fun fuel more => write_of_le more returned (by simp)⟩

/-- Two results are found with one fuel. -/
theorem Finds.common (finds : Finds held store grammar input found after)
    (others : Finds wider middle other between foundOther now) :
    ∃ fuel, grammar.read fuel input held store = (.returned found, after) ∧
      other.read fuel between wider middle = (.returned foundOther, now) := by
  obtain ⟨enough, found⟩ := finds.enough
  obtain ⟨enoughOther, foundOther⟩ := others.enough
  exact ⟨max enough enoughOther, found _ (Nat.le_max_left _ _), foundOther _ (Nat.le_max_right _ _)⟩

theorem Puts.common {otherValue : Value} {otherText : Input}
    (puts : Puts held store grammar value rest text after)
    (others : Puts wider middle other otherValue between otherText now) :
    ∃ fuel, grammar.write fuel value rest held store = (.returned text, after) ∧
      other.write fuel otherValue between wider middle = (.returned otherText, now) := by
  obtain ⟨enough, put⟩ := puts.enough
  obtain ⟨enoughOther, putOther⟩ := others.enough
  exact ⟨max enough enoughOther, put _ (Nat.le_max_left _ _), putOther _ (Nat.le_max_right _ _)⟩

/-- There is one match only, and one store after it. -/
theorem Finds.unique (finds : Finds held store grammar input found after)
    (others : Finds held store grammar input foundOther now) : found = foundOther ∧ after = now := by
  obtain ⟨fuel, returned, again⟩ := finds.common others
  rw [returned] at again
  simpa using again

/-- A success and a failure are never found together. -/
theorem Finds.not_failure (finds : Finds held store grammar input (.success value rest) after)
    (fails : Finds held store grammar input (.failure last) now) : False := by
  simpa using (finds.unique fails).1

/-- There is one text only, and one store after it. -/
theorem Puts.unique {otherText : Input} (puts : Puts held store grammar value rest text after)
    (others : Puts held store grammar value rest otherText now) : text = otherText ∧ after = now := by
  obtain ⟨fuel, returned, again⟩ := puts.common others
  rw [returned] at again
  simpa using again

theorem Finds.later (finds : Finds wider store grammar input found after) (within : held ⊆ wider) :
    Store.Later held store after := by
  obtain ⟨fuel, returned⟩ := finds
  exact (read_evolves held fuel grammar input).later within returned

theorem Puts.later (puts : Puts wider store grammar value rest text after)
    (within : held ⊆ wider) : Store.Later held store after := by
  obtain ⟨fuel, returned⟩ := puts
  exact (write_evolves held fuel grammar value rest).later within returned

section Reading

theorem finds_primitive (base : Primitive) (input : Input) (store : Store) :
    Finds held store (primitive base) input (base.read input) store :=
  ⟨0, rfl⟩

theorem finds_adapt {prism : ValuePrism} {view : Value} (viewed : prism.preview value = some view)
    (finds : Finds held store body input (.success value rest) after) :
    Finds held store (adapt prism body) input (.success view rest) after := by
  obtain ⟨fuel, found⟩ := finds
  refine ⟨fuel, ?_⟩
  rw [read_adapt, Run.onSuccess_of_success found, viewed]
  rfl

theorem finds_sequence {firstValue secondValue : Value}
    (findsFirst : Finds held store first input (.success firstValue between) middle)
    (findsSecond : Finds held middle second between (.success secondValue rest) after) :
    Finds held store (sequence first second) input (.success (.pair firstValue secondValue) rest)
      after := by
  obtain ⟨fuel, foundFirst, foundSecond⟩ := findsFirst.common findsSecond
  refine ⟨fuel, ?_⟩
  rw [read_sequence, Run.onSuccess_of_success foundFirst, Run.onSuccess_of_success foundSecond]
  rfl

theorem finds_thenDiscard {markValue : Value}
    (findsBody : Finds held store body input (.success value between) middle)
    (findsMark : Finds held middle mark between (.success markValue rest) after) :
    Finds held store (thenDiscard body mark) input (.success value rest) after := by
  obtain ⟨fuel, foundBody, foundMark⟩ := findsBody.common findsMark
  refine ⟨fuel, ?_⟩
  rw [read_thenDiscard, Run.onSuccess_of_success foundBody, Run.onSuccess_of_success foundMark]
  rfl

theorem finds_discardThen {markValue : Value}
    (findsMark : Finds held store mark input (.success markValue between) middle)
    (findsBody : Finds held middle body between found after) :
    Finds held store (discardThen mark body) input found after := by
  obtain ⟨fuel, foundMark, foundBody⟩ := findsMark.common findsBody
  refine ⟨fuel, ?_⟩
  rw [read_discardThen, Run.onSuccess_of_success foundMark, foundBody]

theorem finds_sequence_of_failure (fails : Finds held store first input (.failure last) after) :
    Finds held store (sequence first second) input (.failure last) after := by
  obtain ⟨fuel, failed⟩ := fails
  refine ⟨fuel, ?_⟩
  rw [read_sequence]
  exact Run.onSuccess_of_failure failed

theorem finds_sequence_of_second_failure
    (findsFirst : Finds held store first input (.success value between) middle)
    (fails : Finds held middle second between (.failure last) after) :
    Finds held store (sequence first second) input (.failure last) after := by
  obtain ⟨fuel, foundFirst, failed⟩ := findsFirst.common fails
  refine ⟨fuel, ?_⟩
  rw [read_sequence, Run.onSuccess_of_success foundFirst]
  exact Run.onSuccess_of_failure failed

theorem finds_adapt_of_failure {prism : ValuePrism}
    (fails : Finds held store body input (.failure last) after) :
    Finds held store (adapt prism body) input (.failure last) after := by
  obtain ⟨fuel, failed⟩ := fails
  refine ⟨fuel, ?_⟩
  rw [read_adapt]
  exact Run.onSuccess_of_failure failed

theorem finds_discardThen_of_failure (fails : Finds held store mark input (.failure last) after) :
    Finds held store (discardThen mark body) input (.failure last) after := by
  obtain ⟨fuel, failed⟩ := fails
  refine ⟨fuel, ?_⟩
  rw [read_discardThen]
  exact Run.onSuccess_of_failure failed

/-- What is shown is what the mark shows, and not the whole input. -/
theorem finds_thenDiscard_of_failure
    (findsBody : Finds held store body input (.success value between) middle)
    (fails : Finds held middle mark between (.failure last) after) :
    Finds held store (thenDiscard body mark) input (.failure last) after := by
  obtain ⟨fuel, foundBody, failed⟩ := findsBody.common fails
  refine ⟨fuel, ?_⟩
  rw [read_thenDiscard, Run.onSuccess_of_success foundBody]
  exact Run.onSuccess_of_failure failed

theorem finds_dependent {next : Value → Grammar} {extract : Value → Value} {captured : AddressSet}
    (findsDeterminant : Finds held store determinant input (.success value between) middle)
    (findsNext : Finds held middle (next value) between found after) :
    Finds held store (dependent determinant next extract captured) input found after := by
  obtain ⟨fuel, determined, foundNext⟩ := findsDeterminant.common findsNext
  refine ⟨fuel, ?_⟩
  rw [read_dependent, Run.onSuccess_of_success determined, foundNext]

theorem finds_choice_left (finds : Finds held store first input (.success value rest) after) :
    Finds held store (choice first second) input (.success (.left value) rest) after := by
  obtain ⟨fuel, found⟩ := finds
  refine ⟨fuel, ?_⟩
  rw [read_choice]
  exact Run.onFailure_of_success (Run.onSuccess_of_success found)

theorem finds_choice_right (fails : Finds held store first input (.failure last) middle)
    (finds : Finds held middle second input (.success value rest) after) :
    Finds held store (choice first second) input (.success (.right value) rest) after := by
  obtain ⟨fuel, failed, found⟩ := fails.common finds
  refine ⟨fuel, ?_⟩
  rw [read_choice, Run.onFailure_of_failure (Run.onSuccess_of_failure failed)]
  exact Run.onSuccess_of_success found

theorem finds_many_nil (fails : Finds held store body input (.failure last) after) :
    Finds held store (many body) input (.success (.list []) input) after := by
  obtain ⟨fuel, failed⟩ := fails
  refine ⟨fuel, ?_⟩
  have attempts : input.length + 1 + fuel = input.length + fuel + 1 := by omega
  have loop : Run.readMany (body.read fuel) (input.length + fuel + 1) input held store =
      (.returned ([], input), after) := Run.bind_of_returned failed
  rw [read_many, attempts, Run.bind_of_returned loop]
  rfl

/-- The loop over the remainder may need more attempts than the remainder has atoms, so the fuel is
raised until the whole loop has them. -/
theorem finds_many_cons {values : List Value}
    (finds : Finds held store body input (.success value rest) middle)
    (others : Finds held middle (many body) rest (.success (.list values) last) after) :
    Finds held store (many body) input (.success (.list (value :: values)) last) after := by
  obtain ⟨enough, found⟩ := finds.enough
  obtain ⟨fuel, looped⟩ := others
  rw [read_many] at looped
  obtain ⟨⟨items, ending⟩, close, loops, shown⟩ := Run.returned_of_bind looped
  obtain ⟨same, rfl, rfl⟩ := Run.success_of_pure shown
  obtain rfl := Value.list.inj same
  let more := max enough (rest.length + 1 + fuel)
  have front := found more (Nat.le_max_left _ _)
  have back : Run.readMany (body.read more) (input.length + more) rest held middle =
      (.returned (items, ending), close) := by
    have items := fun input => read_compatible Run.approximates_compatible
      (show fuel ≤ more by omega) body input
    exact (Run.approximates_compatible.readMany items
      (show rest.length + 1 + fuel ≤ input.length + more by omega) rest).eq_of_returned loops
  refine ⟨more, ?_⟩
  have attempts : input.length + 1 + more = input.length + more + 1 := by omega
  have loop : Run.readMany (body.read more) (input.length + more + 1) input held store =
      (.returned (value :: items, ending), close) := by
    refine (Run.bind_of_returned front).trans ?_
    exact Run.bind_of_returned back
  rw [read_many, attempts, Run.bind_of_returned loop]
  rfl

theorem finds_replicate_zero (input : Input) (store : Store) :
    Finds held store (replicate capacity 0 body) input (.success (.list []) input) store :=
  ⟨0, rfl⟩

theorem finds_replicate_succ {count : Nat} {values : List Value} (fits : count < capacity.items)
    (finds : Finds held store body input (.success value rest) middle)
    (others : Finds held middle (replicate capacity count body) rest (.success (.list values) last) after) :
    Finds held store (replicate capacity (count + 1) body) input (.success (.list (value :: values)) last)
      after := by
  obtain ⟨fuel, found, looped⟩ := finds.common others
  rw [read_replicate, if_neg (by omega)] at looped
  obtain ⟨items, ending, close, loops, shown⟩ := Run.success_of_onSuccess looped
  obtain ⟨same, rfl, rfl⟩ := Run.success_of_pure shown
  obtain rfl := Value.list.inj same
  have loop : Run.readTimes (body.read fuel) (count + 1) input held store =
      (.returned (.success (value :: items) ending), close) := by
    refine (Run.onSuccess_of_success found).trans ?_
    exact Run.onSuccess_of_success loops
  refine ⟨fuel, ?_⟩
  rw [read_replicate, if_neg (by omega), Run.onSuccess_of_success loop]
  rfl

theorem finds_withDefault_of_success {default : Value}
    (finds : Finds held store body input (.success value rest) after) :
    Finds held store (withDefault default body) input (.success value rest) after := by
  obtain ⟨fuel, found⟩ := finds
  refine ⟨fuel, ?_⟩
  rw [read_withDefault]
  exact Run.onFailure_of_success found

theorem finds_withDefault_of_failure {default : Value}
    (fails : Finds held store body input (.failure last) after) :
    Finds held store (withDefault default body) input (.success default input) after := by
  obtain ⟨fuel, failed⟩ := fails
  refine ⟨fuel, ?_⟩
  rw [read_withDefault, Run.onFailure_of_failure failed]
  rfl

theorem finds_opt_present (finds : Finds held store body input (.success value rest) after) :
    Finds held store (opt body) input (.success (.present value) rest) after := by
  obtain ⟨fuel, found⟩ := finds
  refine ⟨fuel, ?_⟩
  rw [read_opt]
  exact Run.onFailure_of_success (Run.onSuccess_of_success found)

theorem finds_opt_absent (fails : Finds held store body input (.failure last) after) :
    Finds held store (opt body) input (.success .absent input) after := by
  obtain ⟨fuel, failed⟩ := fails
  refine ⟨fuel, ?_⟩
  rw [read_opt, Run.onFailure_of_failure (Run.onSuccess_of_failure failed)]
  rfl

/-- A log that refuses nothing lets a traced grammar find what its body finds. -/
theorem finds_traced {name : Text} {entered : TraceLog} (quiet : store.Quiet)
    (opened : store.log.enter "match".toList name = .ok entered)
    (finds : Finds held { store with log := entered } body input found after) :
    ∃ closed, after.log.leave "match".toList name found.accepted = .ok closed ∧
      Finds held store (traced name body) input found { after with log := closed } := by
  have step : Store.Later held store { store with log := entered } := Store.later_of_enter opened
  have calm : after.Quiet := (step.trans (finds.later (AddressSet.Subset.refl held))).quiet quiet
  obtain ⟨fuel, found⟩ := finds
  obtain ⟨closed, left, traced⟩ := Run.traced_of_quiet opened found calm
  exact ⟨closed, left, fuel, by rw [read_traced, traced]⟩

theorem finds_shared (resolved : Run.resolve cell held store = (.returned body, middle))
    (finds : Finds held middle body input found after) :
    Finds held store (shared cell) input found after := by
  obtain ⟨fuel, found⟩ := finds
  refine ⟨fuel + 1, ?_⟩
  rw [read_shared, Run.bind_of_returned resolved]
  exact found

/-- A handle finds what its cell gives while it is held. What only it held is released then. -/
theorem finds_handle (finds : Finds (held ∪ {cell}) store (shared cell) input found middle) :
    ∃ after, Finds held store (handle cell) input found after ∧
      (after = middle ∨ after = middle.collect held) := by
  obtain ⟨fuel, found⟩ := finds
  obtain ⟨after, returned, settled⟩ := Run.holding_of_returned found
  exact ⟨after, ⟨fuel, by rw [read_handle, returned]⟩, settled⟩

end Reading

section Writing

theorem puts_primitive {base : Primitive} (written : base.write? value rest = some text)
    (store : Store) : Puts held store (primitive base) value rest text store := by
  refine ⟨0, ?_⟩
  rw [write_primitive, written]
  rfl

theorem puts_adapt {prism : ValuePrism}
    (puts : Puts held store body (prism.review value) rest text after) :
    Puts held store (adapt prism body) value rest text after := by
  obtain ⟨fuel, put⟩ := puts
  exact ⟨fuel, by rw [write_adapt, put]⟩

theorem puts_sequence {firstValue secondValue : Value}
    (putsSecond : Puts held store second secondValue rest between middle)
    (putsFirst : Puts held middle first firstValue between text after) :
    Puts held store (sequence first second) (.pair firstValue secondValue) rest text after := by
  obtain ⟨fuel, putSecond, putFirst⟩ := putsSecond.common putsFirst
  exact ⟨fuel, by rw [write_sequence, Run.bind_of_returned putSecond, putFirst]⟩

theorem puts_thenDiscard (putsMark : Puts held store mark .unit rest between middle)
    (putsBody : Puts held middle body value between text after) :
    Puts held store (thenDiscard body mark) value rest text after := by
  obtain ⟨fuel, putMark, putBody⟩ := putsMark.common putsBody
  exact ⟨fuel, by rw [write_thenDiscard, Run.bind_of_returned putMark, putBody]⟩

theorem puts_discardThen (putsBody : Puts held store body value rest between middle)
    (putsMark : Puts held middle mark .unit between text after) :
    Puts held store (discardThen mark body) value rest text after := by
  obtain ⟨fuel, putBody, putMark⟩ := putsBody.common putsMark
  exact ⟨fuel, by rw [write_discardThen, Run.bind_of_returned putBody, putMark]⟩

theorem puts_dependent {next : Value → Grammar} {extract : Value → Value} {captured : AddressSet}
    (putsNext : Puts held store (next (extract value)) value rest between middle)
    (putsDeterminant : Puts held middle determinant (extract value) between text after) :
    Puts held store (dependent determinant next extract captured) value rest text after := by
  obtain ⟨fuel, putNext, putDeterminant⟩ := putsNext.common putsDeterminant
  exact ⟨fuel, by rw [write_dependent, Run.bind_of_returned putNext, putDeterminant]⟩

theorem puts_choice_left (puts : Puts held store first value rest text after) :
    Puts held store (choice first second) (.left value) rest text after := by
  obtain ⟨fuel, put⟩ := puts
  exact ⟨fuel, by rw [write_choice_left, put]⟩

theorem puts_choice_right (puts : Puts held store second value rest text after) :
    Puts held store (choice first second) (.right value) rest text after := by
  obtain ⟨fuel, put⟩ := puts
  exact ⟨fuel, by rw [write_choice_right, put]⟩

theorem puts_many_nil (rest : Input) (store : Store) :
    Puts held store (many body) (.list []) rest rest store :=
  ⟨0, rfl⟩

theorem puts_many_cons {values : List Value}
    (others : Puts held store (many body) (.list values) rest between middle)
    (puts : Puts held middle body value between text after) :
    Puts held store (many body) (.list (value :: values)) rest text after := by
  obtain ⟨fuel, back, front⟩ := others.common puts
  rw [write_many] at back
  refine ⟨fuel, ?_⟩
  rw [write_many]
  exact (Run.bind_of_returned back).trans front

theorem puts_replicate_zero (values : List Value) (rest : Input) (store : Store) :
    Puts held store (replicate capacity 0 body) (.list values) rest rest store :=
  ⟨0, rfl⟩

theorem puts_replicate_succ {count : Nat} {values : List Value}
    (others : Puts held store (replicate capacity count body) (.list values) rest between middle)
    (puts : Puts held middle body value between text after) :
    Puts held store (replicate capacity (count + 1) body) (.list (value :: values)) rest text after := by
  obtain ⟨fuel, back, front⟩ := others.common puts
  rw [write_replicate] at back
  refine ⟨fuel, ?_⟩
  rw [write_replicate]
  exact (Run.bind_of_returned back).trans front

theorem puts_withDefault_default {default : Value} (rest : Input) (store : Store) :
    Puts held store (withDefault default body) default rest rest store := by
  refine ⟨0, ?_⟩
  rw [write_withDefault, if_pos rfl]
  rfl

theorem puts_withDefault_other {default : Value} (different : value ≠ default)
    (puts : Puts held store body value rest text after) :
    Puts held store (withDefault default body) value rest text after := by
  obtain ⟨fuel, put⟩ := puts
  exact ⟨fuel, by rw [write_withDefault, if_neg different, put]⟩

theorem puts_opt_absent (rest : Input) (store : Store) :
    Puts held store (opt body) .absent rest rest store :=
  ⟨0, rfl⟩

theorem puts_opt_present (puts : Puts held store body value rest text after) :
    Puts held store (opt body) (.present value) rest text after := by
  obtain ⟨fuel, put⟩ := puts
  exact ⟨fuel, by rw [write_opt_present, put]⟩

/-- A log that refuses nothing lets a traced grammar put what its body puts. -/
theorem puts_traced {name : Text} {entered : TraceLog} (quiet : store.Quiet)
    (opened : store.log.enter "construct".toList name = .ok entered)
    (puts : Puts held { store with log := entered } body value rest text after) :
    ∃ closed, after.log.leave "construct".toList name true = .ok closed ∧
      Puts held store (traced name body) value rest text { after with log := closed } := by
  have step : Store.Later held store { store with log := entered } := Store.later_of_enter opened
  have calm : after.Quiet := (step.trans (puts.later (AddressSet.Subset.refl held))).quiet quiet
  obtain ⟨fuel, put⟩ := puts
  obtain ⟨closed, left, traced⟩ := Run.traced_of_quiet opened put calm
  exact ⟨closed, left, fuel, by rw [write_traced, traced]⟩

theorem puts_shared (resolved : Run.resolve cell held store = (.returned body, middle))
    (puts : Puts held middle body value rest text after) :
    Puts held store (shared cell) value rest text after := by
  obtain ⟨fuel, put⟩ := puts
  refine ⟨fuel + 1, ?_⟩
  rw [write_shared, Run.bind_of_returned resolved]
  exact put

theorem puts_handle (puts : Puts (held ∪ {cell}) store (shared cell) value rest text middle) :
    ∃ after, Puts held store (handle cell) value rest text after ∧
      (after = middle ∨ after = middle.collect held) := by
  obtain ⟨fuel, put⟩ := puts
  obtain ⟨after, returned, settled⟩ := Run.holding_of_returned put
  exact ⟨after, ⟨fuel, by rw [write_handle, returned]⟩, settled⟩

end Writing

end TwoWayGrammar.Grammar
