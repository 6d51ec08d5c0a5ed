namespace TwoWayGrammar

/-- Text is a list of characters. A byte is the character with the same code. -/
abbrev Text := List Char

/-- Terminated text ends before its first NUL character. -/
def Text.untilNul (text : Text) : Text := text.takeWhile (· ≠ '\x00')

/-- An atom is one element of an input: a character, an integer or a word. -/
inductive Atom where
  | char (character : Char)
  | number (value : Int)
  | word (text : Text)
  deriving DecidableEq

/-- An input is a finite sequence of atoms. -/
abbrev Input := List Atom

/-- Splitting takes the first atom off the input, and an empty input has none. -/
def Input.uncons : Input → Option (Atom × Input)
  | [] => none
  | atom :: rest => some (atom, rest)

@[simp] theorem Input.uncons_nil : Input.uncons [] = none := rfl

@[simp] theorem Input.uncons_cons (atom : Atom) (rest : Input) :
    Input.uncons (atom :: rest) = some (atom, rest) := rfl

end TwoWayGrammar
