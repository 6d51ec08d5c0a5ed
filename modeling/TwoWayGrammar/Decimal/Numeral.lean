import TwoWayGrammar.Atom
import TwoWayGrammar.Decimal.IntegerType

namespace TwoWayGrammar.IntegerType

/-- The magnitude of a negative integer is its negation as a word. -/
def magnitude (type : IntegerType) (value : Int) : type.Word :=
  if value < 0 then 0 - BitVec.ofInt _ value else BitVec.ofInt _ value

/-- A numeral is a minus sign for negative integers and the digits of the magnitude. -/
def render (type : IntegerType) (value : Int) : Text :=
  (if value < 0 then ['-'] else []) ++ Nat.toDigits 10 (type.magnitude value).toNat

/-- The limit is the greatest magnitude with the given sign. -/
def limit (type : IntegerType) (negative : Bool) : type.Word :=
  if negative then 0 - BitVec.ofInt _ type.least else BitVec.ofInt _ type.greatest

/-- A digit character counts from the character zero. -/
def digitWord (type : IntegerType) (digit : Char) : type.Word :=
  BitVec.ofNat _ (digit.toNat - '0'.toNat)

/-- The total may take one more digit while ten times the total plus the digit fits the limit. -/
def hasRoom (type : IntegerType) (limit total : type.Word) (digit : Char) : Bool :=
  total ≤ (limit - type.digitWord digit) / 10

/-- Reading digits extends the total. It stops at any other character and at the limit. -/
def accumulate (type : IntegerType) (limit : type.Word) : type.Word → Text → Option type.Word
  | total, [] => some total
  | total, digit :: rest =>
    if digit.isDigit && type.hasRoom limit total digit then
      accumulate type limit (total * 10 + type.digitWord digit) rest
    else none

/-- A negative total is negated one below itself, so that the least integer needs no wider word. -/
def ofMagnitude (type : IntegerType) (negative : Bool) (total : type.Word) : Int :=
  if type.signed then
    if negative && total != 0 then -(total - 1).toInt - 1 else total.toInt
  else total.toNat

/-- Unsigned digits give an integer when there is at least one digit and the total fits. -/
def parseDigits? (type : IntegerType) (negative : Bool) : Text → Option Int
  | [] => none
  | digits => (type.accumulate (type.limit negative) 0 digits).map (type.ofMagnitude negative)

/-- A numeral is read as a whole. Only a signed type has a minus sign. -/
def parse? (type : IntegerType) : Text → Option Int
  | '-' :: digits => if type.signed then type.parseDigits? true digits else none
  | digits => type.parseDigits? false digits

end TwoWayGrammar.IntegerType
