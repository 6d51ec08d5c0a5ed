import TwoWayGrammar.Ascii

namespace TwoWayGrammar

/-- A test accepts or rejects an atom. -/
abbrev Test := Atom → Bool

namespace Test

/-- Every atom passes. -/
def any : Test := fun _ => true

/-- Only the given atom passes. -/
def equals (expected : Atom) : Test := fun atom => atom = expected

/-- The listed atoms pass. -/
def oneOf (atoms : List Atom) : Test := fun atom => atom ∈ atoms

/-- The atoms pass that fail the other test. -/
def not (test : Test) : Test := fun atom => !test atom

/-- The characters of the class pass. -/
def inClass (charClass : AsciiClass) : Test := charClass.containsAtom

/-- The numbers above the bound pass. -/
def above (bound : Int) : Test
  | .number value => bound < value
  | _ => false

/-- The numbers below the bound pass. -/
def below (bound : Int) : Test
  | .number value => value < bound
  | _ => false

/-- The even numbers pass. -/
def even : Test
  | .number value => value % 2 == 0
  | _ => false

@[simp] theorem equals_iff (expected atom : Atom) : equals expected atom = true ↔ atom = expected := by
  simp [equals]

@[simp] theorem oneOf_iff (atoms : List Atom) (atom : Atom) :
    oneOf atoms atom = true ↔ atom ∈ atoms := by
  simp [oneOf]

end Test

end TwoWayGrammar
