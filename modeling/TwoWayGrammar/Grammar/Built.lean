import TwoWayGrammar.Grammar.Basic

/-! The cells of a grammar are worked out once, while it is built, so a part that is used at many places is
not searched again at each of them. -/

namespace TwoWayGrammar

/-- A built grammar is a grammar with the set of the cells that it owns. -/
structure Built where
  grammar : Grammar
  owned : AddressSet
  owned_eq : owned = grammar.owned

namespace Built

/-- A primitive owns nothing. -/
def primitive (base : Primitive) : Built := ⟨.primitive base, ∅, rfl⟩

/-- A shared grammar owns its cell. -/
def shared (cell : Address) : Built := ⟨.shared cell, {cell}, rfl⟩

/-- A handle owns nothing. -/
def handle (cell : Address) : Built := ⟨.handle cell, ∅, rfl⟩

/-- A combinator of one part owns what the part owns. -/
def wrap (combine : Grammar → Grammar) (keeps : ∀ body, (combine body).owned = body.owned)
    (body : Built) : Built :=
  ⟨combine body.grammar, body.owned, by rw [keeps, body.owned_eq]⟩

/-- A combinator of two parts owns what either part owns. -/
def join (combine : Grammar → Grammar → Grammar)
    (keeps : ∀ first second, (combine first second).owned = first.owned ∪ second.owned)
    (first second : Built) : Built :=
  ⟨combine first.grammar second.grammar, first.owned ∪ second.owned, by
    rw [keeps, first.owned_eq, second.owned_eq]⟩

/-- A dependent grammar owns what its determinant or any of its parts owns. -/
def dependent {arity : Nat} (determinant : Built) (parts : Fin arity → Built)
    (next : (Fin arity → Grammar) → Value → Grammar) (extract : Value → Value) : Built :=
  let captured := AddressSet.unions (List.ofFn fun part => (parts part).owned)
  ⟨.dependent determinant.grammar (next fun part => (parts part).grammar) extract captured,
    determinant.owned ∪ captured, by rw [Grammar.owned, determinant.owned_eq]⟩

end Built

end TwoWayGrammar
