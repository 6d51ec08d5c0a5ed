import Mathlib.Data.Nat.Digits.Defs
import Mathlib.Data.Nat.Log
import TwoWayGrammar.Proofs.Decimal.Integral
import TwoWayGrammar.Proofs.Decimal.Reading

namespace TwoWayGrammar

/-- A numeral is shortest when it has a digit and no leading zero, unless it is a single zero. -/
def Text.IsShortest (text : Text) : Prop :=
  text.unsigned ≠ [] ∧ Text.IsDigits text.unsigned ∧ (text.unsigned.head? = some '0' → text = ['0'])

namespace IntegerType

variable {type : IntegerType} {value : Int} {text : Text}

/-- As many zeros as the greatest power of ten has that is at most one above the greatest integer. -/
def decimals (type : IntegerType) : Nat := Nat.log 10 (type.greatest + 1).toNat

/-- A buffer has one place more than that for digits, and in a signed type a place for the sign. -/
def bufferSize (type : IntegerType) : Nat := type.decimals + if type.signed then 2 else 1

/-- The last digit of a word goes in front of the text and then the digits before it, as long as there is
room. -/
def fill (type : IntegerType) : (room : Nat) → type.Word → Text → Option (Nat × Text)
  | 0, _, _ => none
  | room + 1, word, text =>
    let extended := Nat.digitChar (word % 10).toNat :: text
    if word / 10 = 0 then some (room, extended) else type.fill room (word / 10) extended

/-- A numeral is put into a buffer from the end of the buffer, the sign last. -/
def renderInto (type : IntegerType) (room : Nat) (value : Int) : Option Text := do
  match ← type.fill room (type.magnitude value) [] with
  | (left, digits) =>
    if value < 0 then
      if left = 0 then none else some ('-' :: digits)
    else some digits

/-- A number of several digits has its last digit behind the digits of a tenth of it. -/
theorem toDigits_eq_append {number : Nat} (several : 10 ≤ number) :
    Nat.toDigits 10 number = Nat.toDigits 10 (number / 10) ++ [Nat.digitChar (number % 10)] := by
  have last : number % 10 < 10 := Nat.mod_lt _ (by decide)
  rw [← Nat.toDigits_of_lt_base last, Nat.toDigits_append_toDigits (by decide) (by omega) last,
    Nat.div_add_mod]

/-- The digits fill a buffer exactly when there is a place for each of them. -/
theorem fill_eq (room : Nat) (word : type.Word) (text : Text) :
    type.fill room word text =
      if (Nat.toDigits 10 word.toNat).length ≤ room then
        some (room - (Nat.toDigits 10 word.toNat).length, Nat.toDigits 10 word.toNat ++ text)
      else none := by
  induction room generalizing word text with
  | zero =>
    have some : 0 < (Nat.toDigits 10 word.toNat).length :=
      List.length_pos_iff.mpr Nat.toDigits_ne_nil
    rw [fill, if_neg (by omega)]
  | succ room ih =>
    have last : (word % 10).toNat = word.toNat % 10 := by
      rw [BitVec.toNat_umod, type.toNat_ten]
    have tenth : (word / 10).toNat = word.toNat / 10 := by
      rw [BitVec.toNat_udiv, type.toNat_ten]
    rw [fill, last]
    by_cases single : word.toNat < 10
    · have zero : word / 10 = 0 := BitVec.eq_of_toNat_eq (by rw [tenth]; simp; omega)
      rw [if_pos zero, Nat.toDigits_of_lt_base single, Nat.mod_eq_of_lt single]
      simp
    · have several : word / 10 ≠ 0 := by
        intro zero
        rw [zero] at tenth
        simp at tenth
        omega
      rw [if_neg several, ih, tenth, toDigits_eq_append (show 10 ≤ word.toNat by omega)]
      simp [Nat.add_sub_add_right]

/-- A buffer takes a numeral exactly when there is a place for each of its characters. -/
theorem renderInto_eq (holds : type.Holds value) (room : Nat) :
    type.renderInto room value =
      if (type.render value).length ≤ room then some (type.render value) else none := by
  rw [renderInto, fill_eq, toNat_magnitude holds, render_eq holds]
  by_cases enough : (Nat.toDigits 10 value.natAbs).length ≤ room
  · by_cases negative : value < 0
    · by_cases place : (Nat.toDigits 10 value.natAbs).length + 1 ≤ room
      · have left : room - (Nat.toDigits 10 value.natAbs).length ≠ 0 := by omega
        simp [enough, negative, place, left]
      · have full : room - (Nat.toDigits 10 value.natAbs).length = 0 := by omega
        simp [enough, negative, place, full]
    · simp [enough, negative]
  · have beyond : ¬ (Nat.toDigits 10 value.natAbs).length + 1 ≤ room := by omega
    by_cases negative : value < 0 <;> simp [enough, negative, beyond]

theorem natAbs_le_of_holds (holds : type.Holds value) :
    value.natAbs ≤ (type.greatest + 1).toNat := by
  obtain ⟨lower, upper⟩ := holds
  unfold least at lower
  unfold greatest at upper ⊢
  cases signed : type.signed <;>
    simp only [signed, Bool.false_eq_true, if_true, if_false] at lower upper ⊢ <;> omega

/-- The numeral of an integer of the type fits the buffer. -/
theorem length_render_le (holds : type.Holds value) :
    (type.render value).length ≤ type.bufferSize := by
  have digits : (Nat.toDigits 10 value.natAbs).length ≤ type.decimals + 1 := by
    refine Nat.toDigits_length 10 _ _ (Nat.succ_pos _) ?_
    exact Nat.lt_of_le_of_lt (natAbs_le_of_holds holds) (Nat.lt_pow_succ_log_self (by decide) _)
  rw [render_eq holds, bufferSize]
  by_cases negative : value < 0
  · simp [negative, Grammar.signed_of_negative holds negative]
    omega
  · cases signed : type.signed <;> simp [negative] <;> omega

/-- A written integer has a minus sign exactly when it is negative, and behind it the digits of its
magnitude. -/
theorem render_split (holds : type.Holds value) :
    (type.render value).isNegative = decide (value < 0) ∧
      (type.render value).unsigned = Nat.toDigits 10 value.natAbs := by
  have all := Text.isDigits_toDigits value.natAbs
  have nonempty : Nat.toDigits 10 value.natAbs ≠ [] := Nat.toDigits_ne_nil
  have negative := Text.isNegative_sign_append (decide (value < 0)) all nonempty []
  have unsigned := Text.unsigned_sign_append (decide (value < 0)) all nonempty []
  rw [List.append_nil, ← Grammar.render_eq_sign holds] at negative unsigned
  exact ⟨negative, unsigned⟩

/-- A written integer is read back. -/
theorem parse?_render (holds : type.Holds value) : type.parse? (type.render value) = some value := by
  obtain ⟨negative, unsigned⟩ := render_split holds
  rw [parse?_eq_some_iff, negative, unsigned, Grammar.integer_toDigits]
  refine ⟨Nat.toDigits_ne_nil, Text.isDigits_toDigits _, fun below => ?_, holds, rfl⟩
  exact Grammar.signed_of_negative holds (of_decide_eq_true below)

/-- What was read is written back when it was the shortest numeral. -/
theorem render_eq_iff_isShortest (found : type.parse? text = some value) :
    type.render value = text ↔ text.IsShortest := by
  obtain ⟨nonempty, all, _, holds, rfl⟩ := parse?_eq_some_iff.mp found
  have shortest := Grammar.render_integer_iff all nonempty holds
  rw [Text.sign_append_unsigned] at shortest
  have zero : text = ['0'] ↔ text.unsigned = ['0'] ∧ text.isNegative = false := by
    constructor
    · rintro rfl
      decide
    · rintro ⟨digit, positive⟩
      rw [← text.sign_append_unsigned, digit, positive]
      rfl
  rw [shortest, ← zero, Text.IsShortest, or_comm, ← imp_iff_not_or]
  exact ⟨fun leading => ⟨nonempty, all, leading⟩, fun shortest => shortest.2.2⟩

/-- A shortest numeral with a sign denotes a negative integer. -/
theorem integer_neg_of_isShortest (shortest : text.IsShortest) (negative : text.isNegative = true) :
    Text.integer text.isNegative text.unsigned < 0 := by
  obtain ⟨nonempty, all, leading⟩ := shortest
  have several : Text.number text.unsigned ≠ 0 := by
    intro zero
    rw [leading (Text.head?_of_number_eq_zero all nonempty zero)] at negative
    exact absurd negative (by decide)
  rw [negative, Text.integer, if_pos rfl]
  omega

/-- The shortest numeral of an integer is the one that is written. -/
theorem render_eq_iff (holds : type.Holds value) :
    type.render value = text ↔
      text.IsShortest ∧ Text.integer text.isNegative text.unsigned = value := by
  constructor
  · rintro rfl
    have back := parse?_render holds
    obtain ⟨-, -, -, -, same⟩ := parse?_eq_some_iff.mp back
    exact ⟨(render_eq_iff_isShortest back).mp rfl, same.symm⟩
  · rintro ⟨shortest, rfl⟩
    have signed (negative : text.isNegative = true) : type.signed = true :=
      Grammar.signed_of_negative holds (integer_neg_of_isShortest shortest negative)
    have found : type.parse? text = some (Text.integer text.isNegative text.unsigned) :=
      parse?_eq_some_iff.mpr ⟨shortest.1, shortest.2.1, signed, holds, rfl⟩
    exact (render_eq_iff_isShortest found).mpr shortest

/-- Every integer of the type has one shortest numeral, with a minus sign exactly when the integer is
negative. It fits the buffer of the type, sign and all, and is read back as the integer. A numeral that is
read is the one that is written exactly when it is the shortest. -/
theorem render_exact (type : IntegerType) :
    (∀ value, type.Holds value →
      (type.render value).IsShortest ∧
      ((type.render value).isNegative = true ↔ value < 0) ∧
      Text.integer (type.render value).isNegative (type.render value).unsigned = value ∧
      (type.render value).length ≤ type.decimals + (if type.signed then 2 else 1) ∧
      type.renderInto type.bufferSize value = some (type.render value) ∧
      type.parse? (type.render value) = some value) ∧
    ∀ text value, type.parse? text = some value → (type.render value = text ↔ text.IsShortest) := by
  refine ⟨fun value holds => ?_, fun text value found => render_eq_iff_isShortest found⟩
  obtain ⟨negative, unsigned⟩ := render_split holds
  have back := parse?_render holds
  have fits := length_render_le holds
  refine ⟨(render_eq_iff_isShortest back).mp rfl, ?_, ?_, fits, ?_, back⟩
  · rw [negative, decide_eq_true_eq]
  · rw [negative, unsigned, Grammar.integer_toDigits]
  · rw [renderInto_eq holds, if_pos fits]

/-- The least integer of eight bits takes all four places of its buffer, and a numeral with a leading zero
is not the one that is written. -/
theorem render_exact_least :
    let type : IntegerType := ⟨.bits8, true⟩
    type.Holds (-128) ∧ type.bufferSize = 4 ∧
    type.renderInto 4 (-128) = some ['-', '1', '2', '8'] ∧ type.renderInto 3 (-128) = none ∧
    type.parse? ['-', '1', '2', '8'] = some (-128) ∧
    type.parse? ['-', '0', '8'] = some (-8) ∧ type.render (-8) ≠ ['-', '0', '8'] := by
  intro type
  have holds : type.Holds (-128) := by decide
  have size : type.bufferSize = 4 := by decide
  have numeral : type.render (-128) = ['-', '1', '2', '8'] := by decide
  obtain ⟨writes, shortest⟩ := render_exact type
  obtain ⟨_, _, _, _, filled, back⟩ := writes (-128) holds
  rw [size, numeral] at filled
  rw [numeral] at back
  have padded : type.parse? ['-', '0', '8'] = some (-8) := by decide
  have longer := (shortest _ _ padded).not
  refine ⟨holds, size, filled, by decide, back, padded, longer.mpr ?_⟩
  rintro ⟨_, _, leading⟩
  exact absurd (leading rfl) (by decide)

end IntegerType

end TwoWayGrammar
