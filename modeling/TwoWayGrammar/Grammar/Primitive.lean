import TwoWayGrammar.Grammar.Test
import TwoWayGrammar.Match
import TwoWayGrammar.Value

namespace TwoWayGrammar

/-- What follows the word, when the input starts with it. -/
def Input.after? : (input word : Input) → Option Input
  | input, [] => some input
  | [], _ :: _ => none
  | atom :: rest, expected :: word => if atom = expected then after? rest word else none

theorem Input.after?_eq_some_iff (input word rest : Input) :
    input.after? word = some rest ↔ input = word ++ rest := by
  induction word generalizing input with
  | nil => simp [Input.after?]
  | cons expected word ih =>
    cases input with
    | nil => simp [Input.after?]
    | cons atom input =>
      by_cases same : atom = expected <;> simp [Input.after?, same, ih]

/-- A primitive is any atom, an atom with a property, one fixed atom, a word, or the end. -/
inductive Primitive where
  | element
  | satisfy (test : Test)
  | literal (expected : Atom)
  | keyword (word : Input)
  | eof

namespace Primitive

/-- Reading takes the part off or fails on the whole input. Fixed parts carry no value. -/
def read : Primitive → Input → Match Value
  | .element, [] => .failure []
  | .element, atom :: rest => .success (.atom atom) rest
  | .satisfy _, [] => .failure []
  | .satisfy test, atom :: rest =>
    if test atom then .success (.atom atom) rest else .failure (atom :: rest)
  | .literal _, [] => .failure []
  | .literal expected, atom :: rest =>
    if atom = expected then .success .unit rest else .failure (atom :: rest)
  | .keyword word, input =>
    match input.after? word with
    | some rest => .success .unit rest
    | none => .failure input
  | .eof, [] => .success .unit []
  | .eof, atom :: rest => .failure (atom :: rest)

/-- Writing puts the part in front. It checks no property, and another shape of value has no part. -/
def write? : Primitive → Value → Input → Option Input
  | .element, .atom atom, rest => some (atom :: rest)
  | .satisfy _, .atom atom, rest => some (atom :: rest)
  | .literal expected, .unit, rest => some (expected :: rest)
  | .keyword word, .unit, rest => some (word ++ rest)
  | .eof, .unit, rest => some rest
  | _, _, _ => none

/-- A failed primitive gives its input back. -/
theorem rest_of_failure (primitive : Primitive) (input rest : Input)
    (failed : primitive.read input = .failure rest) : rest = input := by
  unfold read at failed
  split at failed <;> (try split at failed) <;> simp_all

/-- A primitive that was read is written back in place. -/
theorem write?_of_success (primitive : Primitive) (input rest : Input) (value : Value)
    (found : primitive.read input = .success value rest) :
    primitive.write? value rest = some input := by
  unfold read at found
  split at found
  · simp at found
  · obtain ⟨rfl, rfl⟩ := Match.success.inj found
    rfl
  · simp at found
  · split at found
    · obtain ⟨rfl, rfl⟩ := Match.success.inj found
      rfl
    · simp at found
  · simp at found
  · split at found
    · rename_i same
      obtain ⟨rfl, rfl⟩ := Match.success.inj found
      simp [write?, same]
    · simp at found
  · split at found
    · rename_i left
      obtain ⟨rfl, rfl⟩ := Match.success.inj found
      simp [write?, (Input.after?_eq_some_iff _ _ _).mp left]
    · simp at found
  · obtain ⟨rfl, rfl⟩ := Match.success.inj found
    rfl
  · simp at found

end Primitive

end TwoWayGrammar
