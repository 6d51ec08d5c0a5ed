import TwoWayGrammar.Proofs.Grammar.Remainder
import TwoWayGrammar.Proofs.Run.Loop

namespace TwoWayGrammar.Grammar

variable {fuel : Nat} {held : AddressSet} {store after : Store} {body : Grammar} {input left : Input}

theorem read_opt_of_failure
    (failed : body.read fuel input held store = (.returned (.failure left), after)) :
    (opt body).read fuel input held store = (.returned (.success .absent input), after) := by
  rw [read_opt, Run.onFailure_of_failure (Run.onSuccess_of_failure failed)]
  rfl

theorem read_withDefault_of_failure
    (failed : body.read fuel input held store = (.returned (.failure left), after)) (default : Value) :
    (withDefault default body).read fuel input held store =
      (.returned (.success default input), after) := by
  rw [read_withDefault, Run.onFailure_of_failure failed]
  rfl

/-- A loop always succeeds, and its values come from successful attempts. It leaves the input of the
attempt after them, which failed. -/
theorem attempts_of_read_many {found : Match Value}
    (returned : (many body).read fuel input held store = (.returned found, after)) :
    ∃ values rest middle left, found = .success (.list values) rest ∧
      Run.Attempts (body.read fuel) held store input values rest middle ∧
        body.read fuel rest held middle = (.returned (.failure left), after) := by
  rw [read_many] at returned
  obtain ⟨⟨values, rest⟩, close, looped, returned⟩ := Run.returned_of_bind returned
  obtain ⟨rfl, rfl⟩ := Run.returned_of_pure returned
  obtain ⟨middle, left, chain, failed⟩ := Run.attempts_of_readMany looped
  exact ⟨values, rest, middle, left, rfl, chain, failed⟩

/-- A chain of successful attempts that ends in a failure is a run of the loop, as the loop allows one
attempt more than its input has atoms. -/
theorem read_many_of_attempts {values : List Value} {rest : Input} {middle : Store}
    (chain : Run.Attempts (body.read fuel) held store input values rest middle)
    (failed : body.read fuel rest held middle = (.returned (.failure left), after))
    (enough : values.length ≤ input.length) :
    (many body).read fuel input held store = (.returned (.success (.list values) rest), after) := by
  rw [read_many, Run.bind_of_returned (Run.readMany_of_attempts chain failed (by omega))]
  rfl

/-- Reading never invents or reorders input. Every match that is returned shows a suffix of the input. A
primitive fails on its whole input, and an option, a default and a loop give back the input of the
attempt that failed. -/
theorem read_keeps_position (fuel : Nat) (held : AddressSet) :
    (∀ (grammar : Grammar) input store found after,
      grammar.read fuel input held store = (.returned found, after) → found.rest <:+ input) ∧
    (∀ base input store, ∃ found,
      (primitive base).read fuel input held store = (.returned found, store) ∧
        ∀ rest, found = .failure rest → rest = input) ∧
    (∀ (body : Grammar) input store left after,
      body.read fuel input held store = (.returned (.failure left), after) →
        (opt body).read fuel input held store = (.returned (.success .absent input), after) ∧
        ∀ default, (withDefault default body).read fuel input held store =
          (.returned (.success default input), after)) ∧
    ∀ (body : Grammar) input store found after,
      (many body).read fuel input held store = (.returned found, after) →
        ∃ values rest middle left, found = .success (.list values) rest ∧
          Run.Attempts (body.read fuel) held store input values rest middle ∧
            body.read fuel rest held middle = (.returned (.failure left), after) := by
  refine ⟨?_, ?_, ?_, ?_⟩
  · intro grammar input store found after returned
    exact read_leaves fuel grammar input held store found after returned
  · intro base input store
    refine ⟨base.read input, by rw [read_primitive]; rfl, fun rest failed => ?_⟩
    exact base.rest_of_failure input rest failed
  · intro body input store left after failed
    exact ⟨read_opt_of_failure failed, read_withDefault_of_failure failed⟩
  · intro body input store found after returned
    exact attempts_of_read_many returned

/-- A letter with a digit behind it. -/
def labelled : Grammar := sequence (satisfy (Test.inClass .letter)) (satisfy (Test.inClass .digit))

/-- The second attempt of the loop fails behind the letter, and yet the loop leaves the letter. -/
theorem read_keeps_position_labelled :
    let store := Store.new .unlimited
    let found : Match Value := .success (.list [.pair (.char 'a') (.char '1')]) [.char 'b']
    labelled.read 0 [.char 'b'] ∅ store = (.returned (.failure []), store) ∧
    (opt labelled).read 0 [.char 'b'] ∅ store = (.returned (.success .absent [.char 'b']), store) ∧
    found.rest <:+ "a1b".toList.map .char ∧
    ∃ values rest middle left, found = .success (.list values) rest ∧
      Run.Attempts (labelled.read 0) ∅ store ("a1b".toList.map .char) values rest middle ∧
        labelled.read 0 rest ∅ middle = (.returned (.failure left), store) := by
  obtain ⟨suffix, _, restored, looped⟩ := read_keeps_position 0 ∅
  have failed : labelled.read 0 [.char 'b'] ∅ (Store.new .unlimited) =
      (.returned (.failure []), Store.new .unlimited) := rfl
  have ran : (many labelled).read 0 ("a1b".toList.map .char) ∅ (Store.new .unlimited) =
      (.returned (.success (.list [.pair (.char 'a') (.char '1')]) [.char 'b']),
        Store.new .unlimited) := rfl
  exact ⟨failed, (restored _ _ _ _ _ failed).1, suffix _ _ _ _ _ ran, looped _ _ _ _ _ ran⟩

end TwoWayGrammar.Grammar
