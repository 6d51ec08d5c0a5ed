import TwoWayGrammar.Prism.Basic

namespace TwoWayGrammar.Prism

/-- Only the listed values pass. -/
def only (values : List Value) : ValuePrism where
  preview value := if value ∈ values then some value else none
  review := id

/-- A filter changes no value. -/
theorem exact_only (values : List Value) : (only values).Exact := by
  intro representation value found
  simp only [only] at found
  split at found
  · exact (Option.some.inj found).symm
  · simp at found

/-- All values but the listed ones pass. -/
def excluding (values : List Value) : ValuePrism where
  preview value := if value ∈ values then none else some value
  review := id

/-- A table reads its first column as its second one. The first row that agrees counts. -/
def table (rows : List (Value × Value)) : ValuePrism where
  preview representation := (rows.find? (·.1 = representation)).map (·.2)
  review value := ((rows.find? (·.2 = value)).map (·.1)).getD value

end TwoWayGrammar.Prism
