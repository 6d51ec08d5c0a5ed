import TwoWayGrammar.Proofs.Grammar.Finding

namespace TwoWayGrammar.Grammar

/-- Reading the input comes to a failure. -/
def FailsNow (held : AddressSet) (store : Store) (grammar : Grammar) (input : Input) : Prop :=
  ∃ left after, Finds held store grammar input (.failure left) after

/-- The value is written in front of the rest, and what is written is read as the value in front of the
rest. -/
def RecoversNow (held : AddressSet) (store : Store) (grammar : Grammar) (value : Value) (rest : Input) :
    Prop :=
  ∃ text middle after, Puts held store grammar value rest text middle ∧
    Finds held middle grammar text (.success value rest) after

/-- A success that is read off the input is written back as the input. -/
def RestoresNow (held : AddressSet) (store : Store) (grammar : Grammar) (input : Input) : Prop :=
  ∀ value rest middle, Finds held store grammar input (.success value rest) middle →
    ∃ after, Puts held middle grammar value rest input after

variable {held : AddressSet} {store middle after : Store} {body : Grammar} {default value view : Value}
  {input rest text : Input}

section Reading

/-- A success with a default is a success of the body, or the default where the body fails. -/
theorem finds_withDefault_iff :
    Finds held store (withDefault default body) input (.success value rest) after ↔
      Finds held store body input (.success value rest) after ∨
        (∃ left, Finds held store body input (.failure left) after) ∧
          value = default ∧ rest = input := by
  constructor
  · rintro ⟨fuel, returned⟩
    rw [read_withDefault] at returned
    rcases Run.success_of_onFailure returned with found | ⟨left, middle, failed, returned⟩
    · exact .inl ⟨fuel, found⟩
    · obtain ⟨rfl, rfl, rfl⟩ := Run.success_of_pure returned
      exact .inr ⟨⟨left, fuel, failed⟩, rfl, rfl⟩
  · rintro (finds | ⟨⟨left, fails⟩, rfl, rfl⟩)
    · exact finds_withDefault_of_success finds
    · exact finds_withDefault_of_failure fails

/-- A success with an option is a success of the body, or absence where the body fails. -/
theorem finds_opt_iff :
    Finds held store (opt body) input (.success view rest) after ↔
      (∃ value, Finds held store body input (.success value rest) after ∧ view = .present value) ∨
        (∃ left, Finds held store body input (.failure left) after) ∧
          view = .absent ∧ rest = input := by
  constructor
  · rintro ⟨fuel, returned⟩
    rw [read_opt] at returned
    rcases Run.success_of_onFailure returned with taken | ⟨left, middle, failed, returned⟩
    · obtain ⟨value, between, middle, found, returned⟩ := Run.success_of_onSuccess taken
      obtain ⟨rfl, rfl, rfl⟩ := Run.success_of_pure returned
      exact .inl ⟨value, ⟨fuel, found⟩, rfl⟩
    · obtain ⟨rfl, rfl, rfl⟩ := Run.success_of_pure returned
      obtain ⟨outcome, close, found, failed⟩ := Run.returned_of_bind failed
      cases outcome with
      | success value between => simp at failed
      | failure shown =>
        obtain ⟨-, rfl⟩ := Run.returned_of_pure failed
        exact .inr ⟨⟨shown, fuel, found⟩, rfl, rfl⟩
  · rintro (⟨value, finds, rfl⟩ | ⟨⟨left, fails⟩, rfl, rfl⟩)
    · exact finds_opt_present finds
    · exact finds_opt_absent fails

/-- Where the body comes to a match, a default is never missing. -/
theorem finds_withDefault_of_finds {found : Match Value}
    (finds : Finds held store body input found after) (default : Value) :
    ∃ value rest, Finds held store (withDefault default body) input (.success value rest) after := by
  cases found with
  | success value rest => exact ⟨value, rest, finds_withDefault_of_success finds⟩
  | failure left => exact ⟨default, input, finds_withDefault_of_failure finds⟩

/-- Where the body comes to a match, an option does not fail. -/
theorem finds_opt_of_finds {found : Match Value} (finds : Finds held store body input found after) :
    ∃ view rest, Finds held store (opt body) input (.success view rest) after := by
  cases found with
  | success value rest => exact ⟨.present value, rest, finds_opt_present finds⟩
  | failure left => exact ⟨.absent, input, finds_opt_absent finds⟩

end Reading

section Writing

/-- Nothing is written for the default. -/
theorem puts_withDefault_default_iff :
    Puts held store (withDefault default body) default rest text after ↔
      rest = text ∧ store = after := by
  constructor
  · rintro ⟨fuel, returned⟩
    rw [write_withDefault, if_pos rfl] at returned
    exact Run.returned_of_pure returned
  · rintro ⟨rfl, rfl⟩
    exact puts_withDefault_default rest store

theorem puts_withDefault_other_iff (different : value ≠ default) :
    Puts held store (withDefault default body) value rest text after ↔
      Puts held store body value rest text after := by
  simp only [Puts, write_withDefault, if_neg different]

theorem puts_opt_present_iff :
    Puts held store (opt body) (.present value) rest text after ↔
      Puts held store body value rest text after := by
  simp only [Puts, write_opt_present]

end Writing

section Recovering

/-- There is one text to be read back. -/
theorem recoversNow_of_puts_iff {grammar : Grammar}
    (puts : Puts held store grammar value rest text middle) :
    RecoversNow held store grammar value rest ↔
      ∃ after, Finds held middle grammar text (.success value rest) after := by
  constructor
  · rintro ⟨other, now, after, others, finds⟩
    obtain ⟨rfl, rfl⟩ := puts.unique others
    exact ⟨after, finds⟩
  · rintro ⟨after, finds⟩
    exact ⟨text, middle, after, puts, finds⟩

/-- The default is read back where the body fails, or where the body reads it from nothing. -/
theorem recoversNow_default_iff :
    RecoversNow held store (withDefault default body) default rest ↔
      FailsNow held store body rest ∨
        ∃ after, Finds held store body rest (.success default rest) after := by
  rw [recoversNow_of_puts_iff (puts_withDefault_default rest store)]
  constructor
  · rintro ⟨after, finds⟩
    rcases finds_withDefault_iff.mp finds with finds | ⟨⟨left, fails⟩, -, -⟩
    · exact .inr ⟨after, finds⟩
    · exact .inl ⟨left, after, fails⟩
  · rintro (⟨left, after, fails⟩ | ⟨after, finds⟩)
    · exact ⟨after, finds_withDefault_of_failure fails⟩
    · exact ⟨after, finds_withDefault_of_success finds⟩

/-- Any other value is read back exactly when the body reads it back. -/
theorem recoversNow_other_iff (different : value ≠ default) :
    RecoversNow held store (withDefault default body) value rest ↔
      RecoversNow held store body value rest := by
  unfold RecoversNow
  simp only [puts_withDefault_other_iff different, finds_withDefault_iff, different, false_and,
    and_false, or_false]

theorem recoversNow_absent_iff :
    RecoversNow held store (opt body) .absent rest ↔ FailsNow held store body rest := by
  rw [recoversNow_of_puts_iff (puts_opt_absent rest store)]
  constructor
  · rintro ⟨after, finds⟩
    rcases finds_opt_iff.mp finds with ⟨value, -, same⟩ | ⟨⟨left, fails⟩, -, -⟩
    · simp at same
    · exact ⟨left, after, fails⟩
  · rintro ⟨left, after, fails⟩
    exact ⟨after, finds_opt_absent fails⟩

theorem recoversNow_present_iff :
    RecoversNow held store (opt body) (.present value) rest ↔ RecoversNow held store body value rest := by
  unfold RecoversNow
  simp only [puts_opt_present_iff, finds_opt_iff, Value.present.injEq, exists_eq_right', reduceCtorEq,
    false_and, and_false, or_false]

end Recovering

section Restoring

/-- There is one success to be restored at most. -/
theorem restoresNow_of_success_iff {grammar : Grammar}
    (finds : Finds held store grammar input (.success value rest) after) :
    RestoresNow held store grammar input ↔ ∃ last, Puts held after grammar value rest input last := by
  constructor
  · intro restores
    exact restores value rest after finds
  · intro puts other left middle again
    obtain ⟨⟨rfl, rfl⟩, rfl⟩ : (value = other ∧ rest = left) ∧ after = middle := by
      simpa using finds.unique again
    exact puts

theorem restoresNow_withDefault_of_failsNow (fails : FailsNow held store body input) :
    RestoresNow held store (withDefault default body) input := by
  obtain ⟨left, after, fails⟩ := fails
  rw [restoresNow_of_success_iff (finds_withDefault_of_failure fails)]
  exact ⟨after, puts_withDefault_default input after⟩

/-- The default is written as nothing, so it is lost unless it was read from nothing. -/
theorem restoresNow_withDefault_default_iff
    (finds : Finds held store body input (.success default rest) after) :
    RestoresNow held store (withDefault default body) input ↔ rest = input := by
  rw [restoresNow_of_success_iff (finds_withDefault_of_success finds)]
  simp only [puts_withDefault_default_iff, exists_and_left, exists_eq', and_true]

theorem restoresNow_withDefault_other_iff (different : value ≠ default)
    (finds : Finds held store body input (.success value rest) after) :
    RestoresNow held store (withDefault default body) input ↔ RestoresNow held store body input := by
  rw [restoresNow_of_success_iff (finds_withDefault_of_success finds), restoresNow_of_success_iff finds]
  simp only [puts_withDefault_other_iff different]

/-- Reading with a default is undone by writing where the body fails, where it reads anything but the
default and undoes that itself, and where it reads the default from nothing. -/
theorem restoresNow_withDefault_iff
    (returns : ∃ found after, Finds held store body input found after) :
    RestoresNow held store (withDefault default body) input ↔
      FailsNow held store body input ∨
      (∃ value rest after, Finds held store body input (.success value rest) after ∧
        value ≠ default ∧ RestoresNow held store body input) ∨
      ∃ after, Finds held store body input (.success default input) after := by
  constructor
  · intro restores
    obtain ⟨found, after, finds⟩ := returns
    cases found with
    | failure left => exact .inl ⟨left, after, finds⟩
    | success value rest =>
      by_cases same : value = default
      · subst same
        obtain rfl := (restoresNow_withDefault_default_iff finds).mp restores
        exact .inr (.inr ⟨after, finds⟩)
      · have restoresBody := (restoresNow_withDefault_other_iff same finds).mp restores
        exact .inr (.inl ⟨value, rest, after, finds, same, restoresBody⟩)
  · rintro (fails | ⟨value, rest, after, finds, different, restores⟩ | ⟨after, finds⟩)
    · exact restoresNow_withDefault_of_failsNow fails
    · exact (restoresNow_withDefault_other_iff different finds).mpr restores
    · exact (restoresNow_withDefault_default_iff finds).mpr rfl

/-- An option writes back what its body writes back, and it writes nothing back where its body fails. -/
theorem restoresNow_opt_iff (returns : ∃ found after, Finds held store body input found after) :
    RestoresNow held store (opt body) input ↔
      FailsNow held store body input ∨ RestoresNow held store body input := by
  obtain ⟨found, after, finds⟩ := returns
  cases found with
  | failure left =>
    have fails : FailsNow held store body input := ⟨left, after, finds⟩
    rw [restoresNow_of_success_iff (finds_opt_absent finds)]
    exact iff_of_true ⟨after, puts_opt_absent input after⟩ (.inl fails)
  | success value rest =>
    have succeeds : ¬ FailsNow held store body input := fun ⟨_, _, fails⟩ => finds.not_failure fails
    rw [restoresNow_of_success_iff (finds_opt_present finds), restoresNow_of_success_iff finds]
    simp only [puts_opt_present_iff, succeeds, false_or]

end Restoring

/-- When a default and an option make a round trip, from a store and with the cells held. -/
structure FallbackTrips (held : AddressSet) (store : Store) (body : Grammar) (default : Value) : Prop where
  /-- Reading with a default always gives a value. -/
  default_succeeds : ∀ input, ∃ value rest after,
    Finds held store (withDefault default body) input (.success value rest) after
  /-- The default comes back where the body fails, or reads just that from nothing. -/
  default_recovered : ∀ rest, RecoversNow held store (withDefault default body) default rest ↔
    FailsNow held store body rest ∨ ∃ after, Finds held store body rest (.success default rest) after
  /-- Any other value comes back where the body gives it back. -/
  other_recovered : ∀ value ≠ default, ∀ rest,
    RecoversNow held store (withDefault default body) value rest ↔ RecoversNow held store body value rest
  /-- An input comes back unless the default was read from a part of it, or the body loses it. -/
  default_restored : ∀ input, RestoresNow held store (withDefault default body) input ↔
    FailsNow held store body input ∨
    (∃ value rest after, Finds held store body input (.success value rest) after ∧
      value ≠ default ∧ RestoresNow held store body input) ∨
    ∃ after, Finds held store body input (.success default input) after
  /-- Reading an option always gives a value. -/
  opt_succeeds : ∀ input, ∃ value rest after,
    Finds held store (opt body) input (.success value rest) after
  /-- Absence comes back where the body fails. -/
  absent_recovered : ∀ rest, RecoversNow held store (opt body) .absent rest ↔
    FailsNow held store body rest
  /-- A present value comes back where the body gives it back. -/
  present_recovered : ∀ value rest, RecoversNow held store (opt body) (.present value) rest ↔
    RecoversNow held store body value rest
  /-- An input comes back where the body fails or gives it back. -/
  opt_restored : ∀ input, RestoresNow held store (opt body) input ↔
    FailsNow held store body input ∨ RestoresNow held store body input

/-- A body that comes to a match on every input makes these round trips, and no others, under a default and
as an option. -/
theorem fallbackTrips_of_returns
    (returns : ∀ input, ∃ found after, Finds held store body input found after) (default : Value) :
    FallbackTrips held store body default where
  default_succeeds input := by
    obtain ⟨found, after, finds⟩ := returns input
    obtain ⟨value, rest, finds⟩ := finds_withDefault_of_finds finds default
    exact ⟨value, rest, after, finds⟩
  default_recovered _ := recoversNow_default_iff
  other_recovered _ different _ := recoversNow_other_iff different
  default_restored input := restoresNow_withDefault_iff (returns input)
  opt_succeeds input := by
    obtain ⟨found, after, finds⟩ := returns input
    obtain ⟨value, rest, finds⟩ := finds_opt_of_finds finds
    exact ⟨value, rest, after, finds⟩
  absent_recovered _ := recoversNow_absent_iff
  present_recovered _ _ := recoversNow_present_iff
  opt_restored input := restoresNow_opt_iff (returns input)

/-- A decimal digit. -/
def digit : Grammar := satisfy (Test.inClass .digit)

/-- A digit is lost when it is the default, and kept when it is not. A digit that follows is taken for the
default that was not written. -/
theorem fallbackTrips_digit :
    let store := Store.new .unlimited
    (∀ input, ∃ found after, Finds ∅ store digit input found after) ∧
    FallbackTrips ∅ store digit (.char '0') ∧
    ¬ RestoresNow ∅ store (withDefault (.char '0') digit) [.char '0'] ∧
    RestoresNow ∅ store (withDefault (.char '0') digit) [.char '1'] ∧
    ¬ RecoversNow ∅ store (withDefault (.char '0') digit) (.char '0') [.char '7'] := by
  have returns (input : Input) : ∃ found after, Finds ∅ (Store.new .unlimited) digit input found after :=
    ⟨_, _, finds_primitive _ input _⟩
  have trips := fallbackTrips_of_returns returns (.char '0')
  have zero : Finds ∅ (Store.new .unlimited) digit [.char '0'] (.success (.char '0') [])
    (Store.new .unlimited) := finds_primitive _ _ _
  have one : Finds ∅ (Store.new .unlimited) digit [.char '1'] (.success (.char '1') [])
    (Store.new .unlimited) := finds_primitive _ _ _
  have seven : Finds ∅ (Store.new .unlimited) digit [.char '7'] (.success (.char '7') [])
    (Store.new .unlimited) := finds_primitive _ _ _
  refine ⟨returns, trips, ?_, ?_, ?_⟩
  · rw [trips.default_restored]
    rintro (⟨left, after, fails⟩ | ⟨value, rest, after, taken, different, -⟩ | ⟨after, taken⟩)
    · exact zero.not_failure fails
    · obtain ⟨⟨rfl, -⟩, -⟩ : (value = .char '0' ∧ rest = []) ∧ after = Store.new .unlimited := by
        simpa using taken.unique zero
      exact different rfl
    · simpa using (zero.unique taken).1
  · rw [trips.default_restored]
    refine .inr (.inl ⟨_, _, _, one, by decide, ?_⟩)
    rw [restoresNow_of_success_iff one]
    exact ⟨_, puts_primitive rfl _⟩
  · rw [trips.default_recovered]
    rintro (⟨left, after, fails⟩ | ⟨after, taken⟩)
    · exact seven.not_failure fails
    · simpa using (seven.unique taken).1

end TwoWayGrammar.Grammar
