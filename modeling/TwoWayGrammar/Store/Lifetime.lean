import TwoWayGrammar.Store.Basic

/-! A cell lives while something else that lives, or a cycle of cells, owns it. -/

namespace TwoWayGrammar.Store

/-- The addresses that are held, or owned by the table or by a cell. -/
def owned (store : Store) (held : AddressSet) : AddressSet :=
  held ∪ AddressSet.unions (store.table.map fun entry => entry.2.owned) ∪
    AddressSet.unions (store.cells.map Cell.owned)

/-- A sweep releases the cells that nothing owns. -/
def sweep (held : AddressSet) (store : Store) : Store :=
  let owned := store.owned held
  { store with
    cells := store.cells.mapIdx fun address cell => if address ∈ owned then cell else .released }

/-- A cell is live until it is released. -/
def liveCells (store : Store) : Nat :=
  store.cells.countP fun
    | .released => false
    | _ => true

/-- Sweeps go on while they release something. -/
def sweeps (held : AddressSet) : Nat → Store → Store
  | 0, store => store
  | rounds + 1, store =>
    let swept := store.sweep held
    if swept.liveCells = store.liveCells then swept else sweeps held rounds swept

/-- Collection sweeps until every live cell has a live owner. Each useful sweep releases a cell, so
there are no more of them than cells. -/
def collect (held : AddressSet) (store : Store) : Store :=
  sweeps held store.cells.length store

end TwoWayGrammar.Store
