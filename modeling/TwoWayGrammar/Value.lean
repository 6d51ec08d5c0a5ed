import TwoWayGrammar.Atom
import TwoWayGrammar.NonEmpty

namespace TwoWayGrammar

/-- A value is built from atoms by lists, pairs, alternatives, options and tree nodes. -/
inductive Value where
  | unit
  | atom (content : Atom)
  | list (items : List Value)
  | pair (first second : Value)
  | left (content : Value)
  | right (content : Value)
  | absent
  | present (content : Value)
  | nonEmpty (head : Value) (tail : List Value)
  | node (children : List Value)

namespace Value

/-- A character as a value. -/
@[match_pattern] abbrev char (character : Char) : Value := .atom (.char character)

/-- An integer as a value. -/
@[match_pattern] abbrev number (value : Int) : Value := .atom (.number value)

/-- A text as a value. -/
@[match_pattern] abbrev text (content : Text) : Value := .atom (.word content)

mutual

/-- Two values compare equal when their shapes and their atoms agree. -/
def beq : Value → Value → Bool
  | .unit, .unit => true
  | .atom a, .atom b => a = b
  | .list as, .list bs => beqList as bs
  | .pair a b, .pair c d => beq a c && beq b d
  | .left a, .left b => beq a b
  | .right a, .right b => beq a b
  | .absent, .absent => true
  | .present a, .present b => beq a b
  | .nonEmpty a as, .nonEmpty b bs => beq a b && beqList as bs
  | .node as, .node bs => beqList as bs
  | _, _ => false

/-- Two lists of values compare equal when they agree item by item. -/
def beqList : List Value → List Value → Bool
  | [], [] => true
  | a :: as, b :: bs => beq a b && beqList as bs
  | _, _ => false

end

mutual

theorem beq_iff (first second : Value) : beq first second = true ↔ first = second := by
  cases first <;> cases second <;> simp [beq, beq_iff, beqList_iff]

theorem beqList_iff (first second : List Value) : beqList first second = true ↔ first = second := by
  cases first <;> cases second <;> simp [beqList, beq_iff, beqList_iff]

end

instance : DecidableEq Value := fun first second =>
  decidable_of_iff _ (beq_iff first second)

/-- A list of character values spells a text, and nothing else does. -/
def spelled? : List Value → Option Text
  | [] => some []
  | .char character :: items => (spelled? items).map (character :: ·)
  | _ => none

/-- Spelling a text writes one character value for each of its characters. -/
def spell (content : Text) : List Value := content.map .char

@[simp] theorem spelled?_spell (content : Text) : spelled? (spell content) = some content := by
  induction content with
  | nil => rfl
  | cons character rest ih => simpa [spell, spelled?] using ih

theorem spell_of_spelled? {items : List Value} {content : Text}
    (spelled : spelled? items = some content) : items = spell content := by
  induction items generalizing content with
  | nil =>
    simp only [spelled?, Option.some.injEq] at spelled
    subst spelled
    rfl
  | cons item items ih =>
    unfold spelled? at spelled
    split at spelled
    · simp_all
    · rename_i character tail same
      simp only [List.cons.injEq] at same
      obtain ⟨rfl, rfl⟩ := same
      obtain ⟨rest, found, rfl⟩ := Option.map_eq_some_iff.mp spelled
      simp [spell, ih found]
    · simp at spelled

end Value

end TwoWayGrammar
