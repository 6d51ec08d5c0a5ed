import TwoWayGrammar.Prism.Basic

namespace TwoWayGrammar.Prism

/-- A list reads from either end. -/
def reversed : ValuePrism where
  preview
    | .list items => some (.list items.reverse)
    | _ => none
  review
    | .list items => .list items.reverse
    | other => other

/-- Reversal loses nothing. -/
theorem exact_reversed : reversed.Exact := by
  intro representation value found
  cases representation <;> simp [reversed] at found
  subst found
  simp [reversed]

/-- A non-empty list is a list. The empty list has no review and stays as it is. -/
def nonEmptyAsList : ValuePrism where
  preview
    | .nonEmpty head tail => some (.list (head :: tail))
    | _ => none
  review
    | .list (head :: tail) => .nonEmpty head tail
    | other => other

/-- A first item with a list of further items is a non-empty list. -/
def pairAsNonEmpty : ValuePrism where
  preview
    | .pair head (.list tail) => some (.nonEmpty head tail)
    | _ => none
  review
    | .nonEmpty head tail => .pair head (.list tail)
    | other => other

/-- A head with a tail is split where it was joined. -/
theorem exact_pairAsNonEmpty : pairAsNonEmpty.Exact := by
  intro representation value found
  simp only [pairAsNonEmpty] at found
  split at found
  · simp only [Option.some.injEq] at found
    subst found
    rfl
  · simp at found

/-- A list of children is a tree node. -/
def listAsNode : ValuePrism where
  preview
    | .list children => some (.node children)
    | _ => none
  review
    | .node children => .list children
    | other => other

/-- A node gives its children back. -/
theorem exact_listAsNode : listAsNode.Exact := by
  intro representation value found
  cases representation <;> simp [listAsNode] at found
  subst found
  rfl

/-- A pair reads in either order. -/
def swap : ValuePrism where
  preview
    | .pair first second => some (.pair second first)
    | _ => none
  review
    | .pair first second => .pair second first
    | other => other

end TwoWayGrammar.Prism
