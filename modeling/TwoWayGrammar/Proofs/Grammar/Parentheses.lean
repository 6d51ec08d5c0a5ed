import TwoWayGrammar.Proofs.Store.History

namespace TwoWayGrammar.Grammar

/-- Nested parentheses are read as a tree. -/
def parentheses (cell : Address) : Grammar :=
  adapt Prism.listAsNode (between (literal (.char '(')) (literal (.char ')')) (many (handle cell)))

theorem owned_parentheses (cell : Address) : ∅ = (parentheses cell).owned := by
  simp [parentheses, between, owned]

/-- The store in which nested parentheses are defined. -/
def parenthesesStore : Store :=
  (Store.new .unlimited).addCell (.holding ⟨parentheses 0, ∅, owned_parentheses 0⟩)

theorem keeps_parentheses : Store.Keeps {0} parenthesesStore 0 :=
  Store.keeps_of_held (AddressSet.mem_singleton.mpr rfl) (Store.live_of_holding rfl)

/-- While it is held, the definition of nested parentheses stays as it is. -/
theorem holds_parentheses {store : Store} (reached : Store.Later {0} parenthesesStore store) :
    store.cells[0]? = some (.holding ⟨parentheses 0, ∅, owned_parentheses 0⟩) :=
  keeps_parentheses.holding reached rfl

end TwoWayGrammar.Grammar
