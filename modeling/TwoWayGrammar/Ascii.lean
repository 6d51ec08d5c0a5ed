import TwoWayGrammar.Atom

namespace TwoWayGrammar

/-- The five classes, in the order in which a classification lists them. -/
inductive AsciiClass where
  | digit
  | letter
  | lower
  | upper
  | space
  deriving DecidableEq

/-- The blanks are space, tab, line feed, vertical tab, form feed and carriage return. -/
def isBlank (character : Char) : Bool :=
  character = ' ' || ('\t' ≤ character && character ≤ '\r')

/-- A class contains exactly its ASCII characters. -/
def AsciiClass.contains : AsciiClass → Char → Bool
  | .digit => Char.isDigit
  | .letter => Char.isAlpha
  | .lower => Char.isLower
  | .upper => Char.isUpper
  | .space => isBlank

/-- Each class has a one-letter tag. -/
def AsciiClass.tag : AsciiClass → Char
  | .digit => 'd'
  | .letter => 'a'
  | .lower => 'l'
  | .upper => 'u'
  | .space => 's'

/-- The classification of a character lists the tags of the classes that contain it. -/
def classify (character : Char) : Text :=
  ([.digit, .letter, .lower, .upper, .space] : List AsciiClass).filter (·.contains character)
    |>.map AsciiClass.tag

/-- A class never contains an atom other than a character. -/
def AsciiClass.containsAtom (charClass : AsciiClass) : Atom → Bool
  | .char character => charClass.contains character
  | _ => false

@[simp] theorem AsciiClass.containsAtom_char (charClass : AsciiClass) (character : Char) :
    charClass.containsAtom (.char character) = charClass.contains character := rfl

end TwoWayGrammar
