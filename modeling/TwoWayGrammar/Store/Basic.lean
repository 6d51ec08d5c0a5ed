import TwoWayGrammar.Definition.Basic
import TwoWayGrammar.Grammar.Built
import TwoWayGrammar.Output.TraceLog

namespace TwoWayGrammar

/-- A scope binds the names of the recursive definitions around a place, innermost first. -/
abbrev Scope := List (Text × Address)

/-- A factory builds the body of a deferred definition in the scope where the definition stands,
after the given number of failures. -/
structure Factory where
  failures : Nat
  message : Text
  scope : Scope
  body : Definition

/-- A cell is a recursive definition that is not complete, a grammar, a deferred definition that is
not built, or empty for good. -/
inductive Cell where
  | unfinished
  | holding (body : Built)
  | pending (factory : Factory)
  | released

/-- A cell offers a grammar or a factory for one. Using any other cell is a fault. -/
def Cell.offer : Cell → Except GrammarFault (Grammar ⊕ Factory)
  | .holding body => .ok (.inl body.grammar)
  | .pending factory => .ok (.inr factory)
  | .unfinished => .error .unfinished
  | .released => .error .released

/-- A cell owns what its grammar owns. A factory refers to handles only. -/
def Cell.owned : Cell → AddressSet
  | .holding body => body.owned
  | _ => ∅

/-- A store is everything that outlives one run. -/
structure Store where
  table : List (Text × Built)
  cells : List Cell
  builds : Nat
  log : TraceLog

namespace Store

/-- A new store has an empty table and an enabled log over the sink. -/
def new (sink : Sink) : Store := ⟨[], [], 0, TraceLog.new sink⟩

/-- The table holds at most one grammar under each name. -/
def find? (store : Store) (name : Text) : Option Built := store.table.lookup name

/-- Removing a name forgets its grammar. -/
def erase (store : Store) (name : Text) : Store :=
  { store with table := store.table.filter fun entry => entry.1 ≠ name }

/-- Putting a grammar under a name replaces the one that was there. -/
def define (store : Store) (name : Text) (built : Built) : Store :=
  { store with table := (name, built) :: (store.erase name).table }

/-- An address without a cell offers as little as a released cell. -/
def offer (store : Store) (address : Address) : Except GrammarFault (Grammar ⊕ Factory) :=
  (store.cells[address]?.getD .released).offer

/-- A cell changes in place. -/
def setCell (store : Store) (address : Address) (cell : Cell) : Store :=
  { store with cells := store.cells.set address cell }

/-- A new cell gets the next address. -/
def addCell (store : Store) (cell : Cell) : Store :=
  { store with cells := store.cells ++ [cell] }

@[simp] theorem find?_define (store : Store) (name : Text) (built : Built) :
    (store.define name built).find? name = some built := by
  simp [find?, define]

theorem find?_erase_of_ne (store : Store) {name other : Text} (different : other ≠ name) :
    (store.erase name).find? other = store.find? other := by
  simp only [find?, erase]
  induction store.table with
  | nil => rfl
  | cons entry entries ih =>
    obtain ⟨key, built⟩ := entry
    by_cases removed : key = name
    · subst removed
      have missed : (other == key) = false := by simp [different]
      simpa [List.lookup_cons, missed] using ih
    · by_cases found : other = key
      · simp [removed, found]
      · have missed : (other == key) = false := by simp [found]
        simpa [List.lookup_cons, removed, missed] using ih

theorem find?_define_of_ne (store : Store) {name other : Text} (built : Built)
    (different : other ≠ name) : (store.define name built).find? other = store.find? other := by
  have missed : (other == name) = false := by simp [different]
  rw [← store.find?_erase_of_ne different]
  simp [find?, define, List.lookup_cons, missed]

@[simp] theorem offer_addCell (store : Store) (cell : Cell) :
    (store.addCell cell).offer store.cells.length = cell.offer := by
  simp [offer, addCell]

end Store

end TwoWayGrammar
