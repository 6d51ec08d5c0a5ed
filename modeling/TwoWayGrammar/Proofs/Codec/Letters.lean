import TwoWayGrammar.Grammar.Dependence
import TwoWayGrammar.Proofs.Decimal.Integral

namespace TwoWayGrammar

/-- A text of letters only. -/
def Text.IsLetters (text : Text) : Prop := ∀ letter ∈ text, letter.isAlpha = true

instance (text : Text) : Decidable text.IsLetters :=
  List.decidableBAll (fun letter : Char => letter.isAlpha = true) text

namespace Text

theorem isLetters_takeWhile (text : Text) : IsLetters (text.takeWhile Char.isAlpha) :=
  List.all_eq_true.mp List.all_takeWhile

theorem not_isDigit_of_isAlpha {letter : Char} (isAlpha : letter.isAlpha = true) :
    letter.isDigit = false := by
  have from65 : 65 ≤ letter.toNat := by
    rcases Bool.or_eq_true_iff.mp isAlpha with upper | lower
    · exact (of_decide_eq_true upper).1
    · have from97 : 97 ≤ letter.toNat := of_decide_eq_true (Bool.and_eq_true_iff.mp lower).1
      omega
  refine Bool.eq_false_iff.mpr fun isDigit => ?_
  have upTo57 := (toNat_of_isDigit isDigit).2
  omega

/-- Letters hide the digits behind them. -/
theorem startsWithDigit_letters_append {content : Text} (all : content.IsLetters) (rest : Text) :
    StartsWithDigit (content ++ rest) ↔ content = [] ∧ rest.StartsWithDigit := by
  cases content with
  | nil => simp
  | cons letter content =>
    have other := not_isDigit_of_isAlpha (all letter List.mem_cons_self)
    simp [StartsWithDigit, other]

end Text

namespace Grammar

variable {fuel : Nat} {held : AddressSet} {store : Store}

/-- Letters are read as long as there are any. -/
theorem read_letters (text : Text) :
    letters.read fuel text.atoms held store =
      (.returned (.success (.text (text.takeWhile Char.isAlpha))
        (Text.atoms (text.dropWhile Char.isAlpha))), store) := by
  have run := @read_many_satisfy fuel held store (Test.inClass .letter) text.atoms
  rw [takeWhile_atoms .letter, dropWhile_atoms .letter] at run
  rw [letters, read_adapt, Run.onSuccess_of_success run]
  simp [Prism.chars, AsciiClass.contains]

theorem write_letters (content : Text) (rest : Input) :
    letters.write fuel (.text content) rest held store =
      (.returned (content.atoms ++ rest), store) := by
  rw [letters, write_adapt]
  exact write_many_satisfy _ content rest

/-- As many letters as are counted. -/
def countedLetters (count : Value) : Grammar :=
  adapt Prism.chars (counted .bytes (satisfy (Test.inClass .letter)) count)

theorem readTimes_satisfy {test : Test} {atoms : Input} (all : ∀ atom ∈ atoms, test atom = true)
    (rest : Input) :
    Run.readTimes ((satisfy test).read fuel) atoms.length (atoms ++ rest) held store =
      (.returned (.success (atoms.map .atom) rest), store) := by
  induction atoms with
  | nil => rfl
  | cons atom atoms ih =>
    have found : (satisfy test).read fuel (atom :: atoms ++ rest) held store =
        (.returned (.success (.atom atom) (atoms ++ rest)), store) := by
      rw [read_primitive]
      simp [Primitive.read, all atom List.mem_cons_self]
    have others := ih fun other member => all other (List.mem_cons_of_mem atom member)
    rw [List.length_cons, Run.readTimes, Run.onSuccess_of_success found,
      Run.onSuccess_of_success others]
    rfl

/-- Counted letters are read, whatever follows. -/
theorem read_countedLetters {content : Text} (all : content.IsLetters)
    (small : content.length < Width.bits32.words) (rest : Text) :
    (countedLetters (.number content.length)).read fuel (Text.atoms (content ++ rest)) held store =
      (.returned (.success (.text content) rest.atoms), store) := by
  have pass : ∀ atom ∈ content.atoms, Test.inClass .letter atom = true := by
    intro atom member
    obtain ⟨letter, inside, rfl⟩ := List.mem_map.mp member
    exact all letter inside
  have times := @readTimes_satisfy fuel held store _ _ pass rest.atoms
  have within : ¬ Capacity.bytes.items < content.length := by
    rw [Width.words] at small
    rw [Capacity.items_bytes]
    omega
  have spelled : content.atoms.map Value.atom = Value.spell content := by
    rw [Text.atoms, List.map_map]
    rfl
  rw [spelled, Text.length_atoms] at times
  have list : (replicate .bytes content.length (satisfy (Test.inClass .letter))).read fuel
      (Text.atoms (content ++ rest)) held store =
        (.returned (.success (.list (Value.spell content)) rest.atoms), store) := by
    rw [read_replicate, if_neg within, Text.atoms_append]
    exact Run.onSuccess_of_success times
  rw [countedLetters, read_adapt, counted, Value.count_number (Nat.lt_trans small (by decide)),
    Run.onSuccess_of_success list]
  simp [Prism.chars]

theorem write_countedLetters (content : Text) (small : content.length < Width.bits32.words)
    (rest : Input) :
    (countedLetters (.number content.length)).write fuel (.text content) rest held store =
      (.returned (content.atoms ++ rest), store) := by
  have written := @write_many_satisfy fuel held store (Test.inClass .letter) content rest
  have whole : (Value.spell content).take content.length = Value.spell content :=
    List.take_of_length_le (by simp [Value.spell])
  rw [write_many] at written
  rw [countedLetters, write_adapt, counted, Value.count_number (Nat.lt_trans small (by decide))]
  change (replicate _ _ _).write fuel (.list (Value.spell content)) rest held store = _
  rw [write_replicate, whole]
  exact written

end Grammar

end TwoWayGrammar
