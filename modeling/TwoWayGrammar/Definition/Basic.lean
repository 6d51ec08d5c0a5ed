import TwoWayGrammar.Grammar.Dependence

namespace TwoWayGrammar

/-- A recursive definition keeps its handle to itself, publishes the handle in the table before it is
complete, or runs the handle before it is complete. -/
inductive Exposure where
  | hidden
  | published
  | premature
  deriving DecidableEq

/-- A definition has the combinators of grammars and adds names, recursion and deferral.

The parts of a dependent definition are built once, in order, before a value picks among them. A
deferred definition fails the given number of times, with the message, before it builds its body. Lists
are taken for lists of bytes unless their capacity is given. -/
inductive Definition where
  | primitive (base : Primitive)
  | adapt (prism : ValuePrism) (body : Definition)
  | sequence (first second : Definition)
  | thenDiscard (body mark : Definition)
  | discardThen (mark body : Definition)
  | between (opening closing body : Definition)
  | choice (first second : Definition)
  | many (body : Definition)
  | many1 (body : Definition)
  | replicate (count : Nat) (body : Definition) (capacity : Capacity := .bytes)
  | dependent {arity : Nat} (determinant : Definition) (parts : Fin arity → Definition)
      (next : (Fin arity → Grammar) → Value → Grammar) (extract : Value → Value)
  | withDefault (default : Value) (body : Definition)
  | opt (body : Definition)
  | traced (name : Text) (body : Definition)
  | deferred (failures : Nat) (message : Text) (body : Definition)
  | recursive (exposure : Exposure) (name : Text) (body : Definition)
  | named (name : Text)
  | self (name : Text)

namespace Definition

/-- One fixed atom as a value. -/
def symbol (expected : Atom) : Definition := primitive (.satisfy (Test.equals expected))

/-- A run of ASCII letters, possibly empty, as a text. -/
def letters : Definition :=
  adapt Prism.chars (many (primitive (.satisfy (Test.inClass .letter))))

/-- A run of decimal digits as a text. -/
def digits : Definition :=
  adapt Prism.digitText (many1 (primitive (.satisfy (Test.inClass .digit))))

/-- A numeral of the type as an integer. -/
def integral (type : IntegerType) : Definition :=
  adapt (Prism.compose Prism.signedText (Prism.decimal type))
    (sequence (opt (symbol (.char '-'))) digits)

/-- The determinant counts how often the body follows. -/
def counted (determinant body : Definition) (extract : Value → Value)
    (capacity : Capacity := .bytes) : Definition :=
  dependent determinant (fun _ : Fin 1 => body) (fun built => Grammar.counted capacity (built 0)) extract

/-- The determinant counts how often the body follows, and the prism reads the list. -/
def countedAs (determinant body : Definition) (prism : ValuePrism) (extract : Value → Value)
    (capacity : Capacity := .bytes) : Definition :=
  dependent determinant (fun _ : Fin 1 => body)
    (fun built value => .adapt prism (Grammar.counted capacity (built 0) value)) extract

/-- The determinant follows once more. -/
def repeated (determinant : Definition) (extract : Value → Value) : Definition :=
  dependent determinant (fun part : Fin 0 => part.elim0) (fun _ => Grammar.repeated) extract

/-- The determinant picks the branch of the first equal key, or else the last branch. -/
def selected (determinant : Definition) (rows : List (Value × Definition)) (other : Definition)
    (extract : Value → Value) : Definition :=
  let keys := rows.map (·.1)
  dependent determinant
    (fun part : Fin (keys.length + 1) => ((rows[part.val]?).map (·.2)).getD other)
    (fun built => Grammar.selected keys built) extract

/-- A deferred definition that never fails by itself. -/
def lazy (body : Definition) : Definition := deferred 0 [] body

end Definition

end TwoWayGrammar
