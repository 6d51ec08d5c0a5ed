namespace TwoWayGrammar

/-- A non-empty list has a head and any tail. -/
structure NonEmpty (α : Type) where
  head : α
  tail : List α
  deriving DecidableEq

namespace NonEmpty

variable {α : Type}

/-- The list view puts the head in front of the tail. -/
def toList (items : NonEmpty α) : List α := items.head :: items.tail

/-- The size counts the head and the tail. -/
def size (items : NonEmpty α) : Nat := items.tail.length + 1

/-- The head has index zero and the tail starts at index one. -/
def get? (items : NonEmpty α) : Nat → Option α
  | 0 => some items.head
  | index + 1 => items.tail[index]?

/-- Every list but the empty one is the view of a non-empty list. -/
def ofList? : List α → Option (NonEmpty α)
  | [] => none
  | head :: tail => some ⟨head, tail⟩

@[simp] theorem ofList?_toList (items : NonEmpty α) : ofList? items.toList = some items := rfl

end NonEmpty

end TwoWayGrammar
