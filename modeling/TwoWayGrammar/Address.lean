namespace TwoWayGrammar

/-- An address names the cell of a shared definition. -/
abbrev Address := Nat

/-- A set of addresses is the number that has a binary one at each member. -/
structure AddressSet where
  digits : Nat
  deriving DecidableEq

namespace AddressSet

instance : EmptyCollection AddressSet := ⟨⟨0⟩⟩

instance : Singleton Address AddressSet := ⟨fun address => ⟨1 <<< address⟩⟩

instance : Union AddressSet := ⟨fun first second => ⟨first.digits ||| second.digits⟩⟩

instance : Membership Address AddressSet :=
  ⟨fun addresses address => addresses.digits.testBit address = true⟩

instance (address : Address) (addresses : AddressSet) : Decidable (address ∈ addresses) :=
  inferInstanceAs (Decidable (addresses.digits.testBit address = true))

@[simp] theorem not_mem_empty (address : Address) : address ∉ (∅ : AddressSet) := by
  change ¬ Nat.testBit 0 address = true
  simp

@[simp] theorem mem_singleton {address member : Address} :
    address ∈ ({member} : AddressSet) ↔ address = member := by
  change Nat.testBit (1 <<< member) address = true ↔ address = member
  rw [Nat.one_shiftLeft, Nat.testBit_two_pow, decide_eq_true_eq, eq_comm]

@[simp] theorem mem_union {address : Address} {first second : AddressSet} :
    address ∈ first ∪ second ↔ address ∈ first ∨ address ∈ second := by
  change Nat.testBit (first.digits ||| second.digits) address = true ↔ _
  rw [Nat.testBit_or, Bool.or_eq_true]
  rfl

@[ext] theorem ext {first second : AddressSet}
    (same : ∀ address, address ∈ first ↔ address ∈ second) : first = second := by
  obtain ⟨firstDigits⟩ := first
  obtain ⟨secondDigits⟩ := second
  congr
  exact Nat.eq_of_testBit_eq fun address => Bool.eq_iff_iff.mpr (same address)

@[simp] theorem union_self (addresses : AddressSet) : addresses ∪ addresses = addresses := by
  ext address
  simp

@[simp] theorem empty_union (addresses : AddressSet) : ∅ ∪ addresses = addresses := by
  ext address
  simp

@[simp] theorem union_empty (addresses : AddressSet) : addresses ∪ ∅ = addresses := by
  ext address
  simp

/-- The union of a list of sets holds the members of each. -/
def unions (sets : List AddressSet) : AddressSet := sets.foldr (· ∪ ·) ∅

@[simp] theorem mem_unions {address : Address} {sets : List AddressSet} :
    address ∈ unions sets ↔ ∃ addresses ∈ sets, address ∈ addresses := by
  induction sets with
  | nil => simp [unions]
  | cons addresses sets ih =>
    change address ∈ addresses ∪ unions sets ↔ _
    simp [ih]

end AddressSet

end TwoWayGrammar
