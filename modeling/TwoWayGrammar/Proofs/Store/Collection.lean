import TwoWayGrammar.Store.Lifetime

namespace TwoWayGrammar

/-- A set is within another when each of its members is. -/
instance : HasSubset AddressSet := ⟨fun first second => ∀ address ∈ first, address ∈ second⟩

namespace AddressSet

theorem Subset.refl (addresses : AddressSet) : addresses ⊆ addresses := fun _ member => member

theorem Subset.trans {first second third : AddressSet} (within : first ⊆ second)
    (beyond : second ⊆ third) : first ⊆ third := fun address member =>
  beyond address (within address member)

theorem empty_subset (addresses : AddressSet) : ∅ ⊆ addresses := fun _ member =>
  absurd member (not_mem_empty _)

theorem subset_union_left (first second : AddressSet) : first ⊆ first ∪ second := fun _ member =>
  mem_union.mpr (.inl member)

theorem subset_union_right (first second : AddressSet) : second ⊆ first ∪ second := fun _ member =>
  mem_union.mpr (.inr member)

end AddressSet

/-- A cell is live until it is released. -/
def Cell.live : Cell → Bool
  | .released => false
  | _ => true

namespace Store

variable {store : Store} {held : AddressSet} {address owner : Address} {built : Built}

/-- What is owned is held, or owned by an entry of the table or by a finished cell. -/
theorem mem_owned : address ∈ store.owned held ↔ address ∈ held ∨
    (∃ entry ∈ store.table, address ∈ entry.2.owned) ∨
      ∃ (owner : Address) (built : Built), store.cells[owner]? = some (.holding built) ∧
        address ∈ built.owned := by
  simp only [owned, AddressSet.mem_union, AddressSet.mem_unions, List.mem_map]
  constructor
  · rintro ((member | ⟨_, ⟨entry, listed, rfl⟩, member⟩) | ⟨_, ⟨cell, present, rfl⟩, member⟩)
    · exact .inl member
    · exact .inr (.inl ⟨entry, listed, member⟩)
    · obtain ⟨owner, found⟩ := List.getElem?_of_mem present
      cases cell with
      | holding built => exact .inr (.inr ⟨owner, built, found, member⟩)
      | _ => exact absurd member (AddressSet.not_mem_empty address)
  · rintro (member | ⟨entry, listed, member⟩ | ⟨owner, built, found, member⟩)
    · exact .inl (.inl member)
    · exact .inl (.inr ⟨_, ⟨entry, listed, rfl⟩, member⟩)
    · exact .inr ⟨_, ⟨_, List.mem_of_getElem? found, rfl⟩, member⟩

theorem mem_owned_of_held (member : address ∈ held) : address ∈ store.owned held :=
  mem_owned.mpr (.inl member)

theorem mem_owned_of_cell (holds : store.cells[owner]? = some (.holding built))
    (member : address ∈ built.owned) : address ∈ store.owned held :=
  mem_owned.mpr (.inr (.inr ⟨owner, built, holds, member⟩))

/-- What stands under a name is an entry of the table. -/
theorem mem_table_of_find? {name : Text} (found : store.find? name = some built) :
    (name, built) ∈ store.table := by
  obtain ⟨before, after, split, _⟩ := List.lookup_eq_some_iff.mp found
  simp [split]

theorem mem_owned_of_entry {name : Text} (found : store.find? name = some built)
    (member : address ∈ built.owned) : address ∈ store.owned held :=
  mem_owned.mpr (.inr (.inl ⟨_, mem_table_of_find? found, member⟩))

theorem cells_sweep (held : AddressSet) (store : Store) (address : Address) :
    (store.sweep held).cells[address]? =
      (store.cells[address]?).map fun cell =>
        if address ∈ store.owned held then cell else .released := by
  simp [sweep, List.getElem?_mapIdx]

/-- A sweep keeps what is owned. -/
theorem cells_sweep_of_owned (owned : address ∈ store.owned held) :
    (store.sweep held).cells[address]? = store.cells[address]? := by
  rw [cells_sweep]
  simp [owned]

theorem sweeps_succ (held : AddressSet) (rounds : Nat) (store : Store) :
    sweeps held (rounds + 1) store =
      if (store.sweep held).liveCells = store.liveCells then store.sweep held
      else sweeps held rounds (store.sweep held) := rfl

/-- Every cell of the second store is the same as in the first one, or it is released. -/
def Shrinks (store after : Store) : Prop :=
  ∀ address : Address, after.cells[address]? = store.cells[address]? ∨
    after.cells[address]? = some .released

theorem Shrinks.refl (store : Store) : store.Shrinks store := fun _ => .inl rfl

theorem Shrinks.trans {first second third : Store} (before : first.Shrinks second)
    (later : second.Shrinks third) : first.Shrinks third := by
  intro address
  rcases later address with same | released
  · rw [same]
    exact before address
  · exact .inr released

/-- What is released stays released. -/
theorem Shrinks.released {first second : Store} (shrinks : first.Shrinks second)
    (gone : first.cells[address]? = some .released) : second.cells[address]? = some .released := by
  rcases shrinks address with same | released
  · rw [same, gone]
  · exact released

/-- Sweeps change cells only. -/
theorem sweeps_eq (held : AddressSet) (rounds : Nat) (store : Store) :
    sweeps held rounds store = { store with cells := (sweeps held rounds store).cells } := by
  induction rounds generalizing store with
  | zero => rfl
  | succ rounds ih =>
    rw [sweeps_succ]
    split
    · rfl
    · exact ih (store.sweep held)

theorem shrinks_sweep (held : AddressSet) (store : Store) : store.Shrinks (store.sweep held) := by
  intro address
  rw [cells_sweep]
  cases store.cells[address]? with
  | none => exact .inl rfl
  | some cell =>
    by_cases owned : address ∈ store.owned held
    · simp [owned]
    · simp [owned]

theorem shrinks_sweeps (held : AddressSet) (rounds : Nat) (store : Store) :
    store.Shrinks (sweeps held rounds store) := by
  induction rounds generalizing store with
  | zero => exact .refl store
  | succ rounds ih =>
    rw [sweeps_succ]
    split
    · exact shrinks_sweep held store
    · exact (shrinks_sweep held store).trans (ih _)

theorem shrinks_collect (held : AddressSet) (store : Store) :
    store.Shrinks (store.collect held) :=
  shrinks_sweeps held _ store

/-- Fewer cells own less. -/
theorem Shrinks.owned_subset {first second : Store} (shrinks : first.Shrinks second)
    (table : second.table = first.table) : second.owned held ⊆ first.owned held := by
  intro address member
  rcases mem_owned.mp member with member | ⟨entry, listed, member⟩ | ⟨owner, built, holds, member⟩
  · exact mem_owned_of_held member
  · rw [table] at listed
    exact mem_owned.mpr (.inr (.inl ⟨entry, listed, member⟩))
  · rcases shrinks owner with same | released
    · exact mem_owned_of_cell (same.symm.trans holds) member
    · simp [released] at holds

/-- Sweeps keep what is still owned when they are over. It was owned before each of them, because
released cells own nothing and never come back. -/
theorem cells_sweeps_of_owned (rounds : Nat)
    (still : address ∈ (sweeps held rounds store).owned held) :
    (sweeps held rounds store).cells[address]? = store.cells[address]? := by
  induction rounds generalizing store with
  | zero => rfl
  | succ rounds ih =>
    have swept : store.Shrinks (store.sweep held) := shrinks_sweep held store
    rw [sweeps_succ] at still ⊢
    split at still
    · rename_i useless
      rw [if_pos useless]
      exact cells_sweep_of_owned (swept.owned_subset rfl address still)
    · rename_i useful
      rw [if_neg useful]
      have all := swept.trans (shrinks_sweeps held rounds _)
      have table : (sweeps held rounds (store.sweep held)).table = store.table := by
        rw [sweeps_eq]
        rfl
      exact (ih still).trans (cells_sweep_of_owned (all.owned_subset table address still))

theorem cells_collect_of_still_owned (still : address ∈ (store.collect held).owned held) :
    (store.collect held).cells[address]? = store.cells[address]? :=
  cells_sweeps_of_owned _ still

/-- A collection keeps what is held. -/
theorem cells_collect_of_held (member : address ∈ held) :
    (store.collect held).cells[address]? = store.cells[address]? :=
  cells_collect_of_still_owned (mem_owned_of_held member)

/-- A collection keeps what is owned by a cell that survives it. -/
theorem cells_collect_of_owner (holds : store.cells[owner]? = some (.holding built))
    (member : address ∈ built.owned)
    (survives : (store.collect held).cells[owner]? ≠ some .released) :
    (store.collect held).cells[address]? = store.cells[address]? := by
  have kept : (store.collect held).cells[owner]? = store.cells[owner]? :=
    (shrinks_collect held store owner).resolve_right survives
  exact cells_collect_of_still_owned (mem_owned_of_cell (kept.trans holds) member)

/-- Releasing cells leaves fewer of them live, or it changes nothing. -/
theorem countP_live_of_shrinks {first second : List Cell} (length : second.length = first.length)
    (shrinks : ∀ index : Nat, second[index]? = first[index]? ∨ second[index]? = some .released) :
    second.countP Cell.live ≤ first.countP Cell.live ∧
      (second.countP Cell.live = first.countP Cell.live → second = first) := by
  induction first generalizing second with
  | nil =>
    obtain rfl := List.length_eq_zero_iff.mp length
    exact ⟨Nat.le_refl _, fun _ => rfl⟩
  | cons before first ih =>
    obtain ⟨after, second, rfl⟩ := List.exists_cons_of_length_eq_add_one length
    obtain ⟨fewer, same⟩ := ih (Nat.succ.inj length) fun index => shrinks (index + 1)
    have here : after = before ∨ after = .released := by simpa using shrinks 0
    simp only [List.countP_cons]
    rcases here with rfl | rfl
    · exact ⟨by omega, fun counts => by rw [same (by omega)]⟩
    · have gone : (if Cell.live .released = true then 1 else 0) = 0 := rfl
      cases live : before.live with
      | false =>
        obtain rfl : before = .released := by cases before <;> simp_all [Cell.live]
        exact ⟨by simp only [gone]; omega, fun counts => by rw [same (by simpa [gone] using counts)]⟩
      | true =>
        rw [gone, if_pos rfl]
        exact ⟨by omega, fun counts => by omega⟩

/-- A sweep leaves fewer cells live, or it changes nothing. -/
theorem liveCells_sweep (held : AddressSet) (store : Store) :
    (store.sweep held).liveCells ≤ store.liveCells ∧
      ((store.sweep held).liveCells = store.liveCells → (store.sweep held).cells = store.cells) :=
  countP_live_of_shrinks (by simp [sweep]) (shrinks_sweep held store)

/-- Enough sweeps leave only owned cells live. Each useful sweep makes fewer of them live, and after a
useless one each live cell is owned by what is still there. -/
theorem owned_of_live_sweeps (rounds : Nat) (enough : store.liveCells ≤ rounds) {cell : Cell}
    (found : (sweeps held rounds store).cells[address]? = some cell) (live : cell ≠ .released) :
    address ∈ (sweeps held rounds store).owned held := by
  induction rounds generalizing store with
  | zero =>
    have none : store.cells.countP Cell.live = 0 := Nat.le_zero.mp enough
    have dead := List.countP_eq_zero.mp none cell (List.mem_of_getElem? found)
    cases cell <;> simp_all [Cell.live]
  | succ rounds ih =>
    obtain ⟨fewer, same⟩ := liveCells_sweep held store
    rw [sweeps_succ] at found ⊢
    split at found
    · rename_i useless
      rw [if_pos useless]
      have owned : address ∈ store.owned held := by
        rw [cells_sweep] at found
        refine Decidable.byContradiction fun unowned => ?_
        obtain ⟨_, _, gone⟩ := Option.map_eq_some_iff.mp found
        rw [if_neg unowned] at gone
        exact live gone.symm
      rcases mem_owned.mp owned with member | ⟨entry, listed, member⟩ | ⟨owner, built, holds, member⟩
      · exact mem_owned_of_held member
      · exact mem_owned.mpr (.inr (.inl ⟨entry, listed, member⟩))
      · rw [← same useless] at holds
        exact mem_owned_of_cell holds member
    · rename_i useful
      rw [if_neg useful]
      exact ih (by omega) found

/-- After a collection every live cell is owned. -/
theorem owned_of_live_collect {cell : Cell}
    (found : (store.collect held).cells[address]? = some cell) (live : cell ≠ .released) :
    address ∈ (store.collect held).owned held :=
  owned_of_live_sweeps _ List.countP_le_length found live

/-- A collection changes nothing when every cell is owned. -/
theorem collect_of_owned (owned : ∀ address : Address, address < store.cells.length →
    address ∈ store.owned held) : store.collect held = store := by
  have swept : store.sweep held = store := by
    have same : (store.sweep held).cells = store.cells := by
      refine List.ext_getElem? fun address => ?_
      rcases Nat.lt_or_ge address store.cells.length with inside | beyond
      · exact cells_sweep_of_owned (owned address inside)
      · rw [cells_sweep, List.getElem?_eq_none beyond]
        rfl
    calc store.sweep held = { store with cells := (store.sweep held).cells } := rfl
      _ = store := by rw [same]
  unfold collect
  cases store.cells.length with
  | zero => rfl
  | succ rounds =>
    rw [sweeps_succ, swept]
    simp

/-- A collection changes cells only. -/
theorem collect_eq (held : AddressSet) (store : Store) :
    store.collect held = { store with cells := (store.collect held).cells } :=
  sweeps_eq held _ store

@[simp] theorem log_collect (held : AddressSet) (store : Store) :
    (store.collect held).log = store.log := by
  rw [collect_eq]

@[simp] theorem table_collect (held : AddressSet) (store : Store) :
    (store.collect held).table = store.table := by
  rw [collect_eq]

@[simp] theorem builds_collect (held : AddressSet) (store : Store) :
    (store.collect held).builds = store.builds := by
  rw [collect_eq]

end Store

end TwoWayGrammar
