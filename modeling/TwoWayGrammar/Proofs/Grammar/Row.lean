import TwoWayGrammar.Proofs.Grammar.Rollback

namespace TwoWayGrammar.Grammar

variable {γ ι : Type} {place : List γ → Input} {write : ι → List γ} {value : ι → Value}
variable {fuel : Nat} {held : AddressSet} {store : Store} {body : Grammar} {left : Input}

/-- A row has at least as many symbols as items when no item is written as nothing. -/
theorem length_le_length_row (nonempty : ∀ item, write item ≠ []) (items : List ι) :
    items.length ≤ (items.flatMap write).length := by
  induction items with
  | nil => exact Nat.le_refl 0
  | cons item items ih =>
    have some : 0 < (write item).length := List.length_pos_iff.mpr (nonempty item)
    rw [List.flatMap_cons, List.length_append, List.length_cons]
    omega

/-- Every content is a row of items and a rest that no further item begins. -/
theorem exists_row (nonempty : ∀ item, write item ≠ []) (content : List γ) :
    ∃ (items : List ι) (rest : List γ), content = items.flatMap write ++ rest ∧
      ∀ item following, rest ≠ write item ++ following := by
  induction size : content.length using Nat.strongRecOn generalizing content with
  | ind size ih =>
  subst size
  by_cases begins : ∃ item following, content = write item ++ following
  · obtain ⟨item, following, rfl⟩ := begins
    have some : 0 < (write item).length := List.length_pos_iff.mpr (nonempty item)
    have shorter : following.length < (write item ++ following).length := by
      rw [List.length_append]
      omega
    obtain ⟨items, rest, rfl, ends⟩ := ih _ shorter following rfl
    exact ⟨item :: items, rest, by simp, ends⟩
  · exact ⟨[], content, rfl, fun item following same => begins ⟨item, following, same⟩⟩

/-- Items are read one after the other. Each takes a symbol at least, so the loop has an attempt left for the
failure behind them. -/
theorem read_many_row (length : ∀ symbols, (place symbols).length = symbols.length)
    (nonempty : ∀ item, write item ≠ [])
    (reads : ∀ item rest, body.read fuel (place (write item ++ rest)) held store =
      (.returned (.success (value item) (place rest)), store))
    (items : List ι) {rest : List γ}
    (failed : body.read fuel (place rest) held store = (.returned (.failure left), store)) :
    (many body).read fuel (place (items.flatMap write ++ rest)) held store =
      (.returned (.success (.list (items.map value)) (place rest)), store) := by
  have chain : Run.Attempts (body.read fuel) held store (place (items.flatMap write ++ rest))
      (items.map value) (place rest) store := by
    induction items with
    | nil => exact .none store _
    | cons item items ih =>
      refine .further ?_ ih
      rw [List.flatMap_cons, List.append_assoc, reads]
  have row := length_le_length_row nonempty items
  refine read_many_of_attempts chain failed ?_
  rw [length, List.length_map, List.length_append]
  omega

/-- Items are written from the last one to the first, each in front of those behind it. -/
theorem write_many_row {items : List ι}
    (writes : ∀ item ∈ items, ∀ rest, body.write fuel (value item) (place rest) held store =
      (.returned (place (write item ++ rest)), store)) (rest : List γ) :
    (many body).write fuel (.list (items.map value)) (place rest) held store =
      (.returned (place (items.flatMap write ++ rest)), store) := by
  rw [write_many]
  induction items with
  | nil => rfl
  | cons item items ih =>
    have others := ih fun other member => writes other (List.mem_cons_of_mem item member)
    rw [List.map_cons, Run.writeEach, Run.bind_of_returned others, writes item List.mem_cons_self,
      List.flatMap_cons, List.append_assoc]

end TwoWayGrammar.Grammar
