import TwoWayGrammar.Address
import TwoWayGrammar.Grammar.Primitive
import TwoWayGrammar.Prism.Shape
import TwoWayGrammar.Prism.Text

namespace TwoWayGrammar

/-- How many items a list of one kind has room for. The greater its items are, the fewer they can be, and
half of the 64-bit counts are out of reach for every kind. -/
structure Capacity where
  items : Nat
  bounded : items < 9223372036854775808
  deriving DecidableEq

/-- A list of bytes has the most room. -/
def Capacity.bytes : Capacity := ⟨9223372036854775807, by decide⟩

theorem Capacity.items_bytes : bytes.items = 9223372036854775807 := rfl

/-- A grammar describes how to read values and how to write them.

A replicated grammar knows the capacity of the lists that it reads. A dependent grammar picks the grammar of
the rest by the value read first, and names the cells that its choices own. A shared grammar keeps its cell
alive, and a handle does not. -/
inductive Grammar where
  | primitive (base : Primitive)
  | adapt (prism : ValuePrism) (body : Grammar)
  | sequence (first second : Grammar)
  | thenDiscard (body mark : Grammar)
  | discardThen (mark body : Grammar)
  | choice (first second : Grammar)
  | many (body : Grammar)
  | replicate (capacity : Capacity) (count : Nat) (body : Grammar)
  | dependent (determinant : Grammar) (next : Value → Grammar) (extract : Value → Value)
      (captured : AddressSet)
  | withDefault (default : Value) (body : Grammar)
  | opt (body : Grammar)
  | traced (name : Text) (body : Grammar)
  | shared (cell : Address)
  | handle (cell : Address)

namespace Grammar

/-- A grammar owns the cells of its shared definitions. A handle owns nothing. -/
def owned : Grammar → AddressSet
  | primitive _ => ∅
  | adapt _ body => body.owned
  | sequence first second => first.owned ∪ second.owned
  | thenDiscard body mark => body.owned ∪ mark.owned
  | discardThen mark body => mark.owned ∪ body.owned
  | choice first second => first.owned ∪ second.owned
  | many body => body.owned
  | replicate _ _ body => body.owned
  | dependent determinant _ _ captured => determinant.owned ∪ captured
  | withDefault _ body => body.owned
  | opt body => body.owned
  | traced _ body => body.owned
  | shared cell => {cell}
  | handle _ => ∅

theorem owned_adapt (prism : ValuePrism) (body : Grammar) :
    (adapt prism body).owned = body.owned := rfl

theorem owned_thenDiscard (body mark : Grammar) :
    (thenDiscard body mark).owned = body.owned ∪ mark.owned := rfl

theorem owned_discardThen (mark body : Grammar) :
    (discardThen mark body).owned = mark.owned ∪ body.owned := rfl

theorem owned_many (body : Grammar) : (many body).owned = body.owned := rfl

/-- Any atom. -/
abbrev element : Grammar := .primitive .element

/-- An atom that passes the test. -/
abbrev satisfy (test : Test) : Grammar := .primitive (.satisfy test)

/-- One fixed atom, without a value. -/
abbrev literal (expected : Atom) : Grammar := .primitive (.literal expected)

/-- A fixed word, without a value. -/
abbrev keyword (word : Input) : Grammar := .primitive (.keyword word)

/-- The end of the input. -/
abbrev eof : Grammar := .primitive .eof

/-- One fixed atom as a value. -/
def symbol (expected : Atom) : Grammar := satisfy (Test.equals expected)

/-- A body between two marks. -/
def between (opening closing body : Grammar) : Grammar :=
  discardThen opening (thenDiscard body closing)

/-- One or more, as a non-empty list. -/
def many1 (body : Grammar) : Grammar :=
  adapt Prism.pairAsNonEmpty (sequence body (many body))

/-- A run of ASCII letters, possibly empty, as a text. -/
def letters : Grammar :=
  adapt Prism.chars (many (satisfy (Test.inClass .letter)))

/-- A run of decimal digits as a text. -/
def digits : Grammar :=
  adapt Prism.digitText (many1 (satisfy (Test.inClass .digit)))

/-- A numeral of the type as an integer. The sign and the digits are taken before the type decides. -/
def integral (type : IntegerType) : Grammar :=
  adapt (Prism.compose Prism.signedText (Prism.decimal type))
    (sequence (opt (symbol (.char '-'))) digits)

/-- The body with nothing after it. -/
def complete (body : Grammar) : Grammar := thenDiscard body eof

@[simp] theorem owned_between (opening closing body : Grammar) :
    (between opening closing body).owned = opening.owned ∪ (body.owned ∪ closing.owned) := rfl

@[simp] theorem owned_many1 (body : Grammar) : (many1 body).owned = body.owned :=
  AddressSet.union_self body.owned

@[simp] theorem owned_integral (type : IntegerType) : (integral type).owned = ∅ := by
  simp [integral, digits, symbol, satisfy, owned]

end Grammar

end TwoWayGrammar
