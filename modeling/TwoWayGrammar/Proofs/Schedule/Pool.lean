import TwoWayGrammar.Proofs.Schedule.Program
import TwoWayGrammar.Proofs.Store.History

namespace TwoWayGrammar

/-- A request for one run of a grammar. -/
inductive Request where
  | read (input : Input)
  | parse (input : Input)
  | parseAll (input : Input)
  | print (value : Value)
  | write (value : Value) (rest : Input)

/-- A request is answered by the directions of a grammar. -/
def Request.on {m : Type → Type} [Monad m] [Faulting m] (request : Request)
    (behaviour : Behaviour m) : m Answer :=
  match request with
  | read input => do return .read (← behaviour.read input)
  | parse input => do return .parsed (← behaviour.read input).value?
  | parseAll input => do
    return .parsed (← (behaviour.thenDiscard (.primitive .eof)).read input).value?
  | print value => do return .written (← behaviour.write value [])
  | write value rest => do return .written (← behaviour.write value rest)

/-- A request has related answers from related behaviours. -/
theorem Request.on_related {m n : Type → Type} [Monad m] [Faulting m] [Monad n] [Faulting n]
    {related : (α : Type) → m α → n α → Prop} (respects : Behaviour.Respects related)
    {behaviour : Behaviour m} {other : Behaviour n} (same : behaviour.Related related other)
    (request : Request) : related _ (request.on behaviour) (request.on other) := by
  cases request with
  | read input => exact respects.bind (same.read input) fun _ => respects.pure _
  | parse input => exact respects.bind (same.read input) fun _ => respects.pure _
  | parseAll input =>
    exact respects.bind ((Behaviour.Related.thenDiscard respects same
      (.primitive respects .eof)).read input) fun _ => respects.pure _
  | print value => exact respects.bind (same.write value []) fun _ => respects.pure _
  | write value rest => exact respects.bind (same.write value rest) fun _ => respects.pure _

/-- A pool has a store, the cells that are held from outside, and programs. -/
structure Pool where
  held : AddressSet
  store : Store
  programs : List (Program Answer)

namespace Pool

/-- The cells that are held from outside or by some program. -/
def locks (pool : Pool) : AddressSet :=
  pool.held ∪ AddressSet.unions (pool.programs.map Program.cells)

/-- In its turn a program makes its next touch. A program that has ended makes none. -/
def advance (pool : Pool) (index : Nat) : Pool :=
  match pool.programs[index]? with
  | some (.touch first _ next) =>
    let performed := first.perform pool.locks pool.store
    { pool with store := performed.2, programs := pool.programs.set index (next performed.1) }
  | _ => pool

theorem advance_of_touch {pool : Pool} {index : Nat} {first : Touch} {cells : AddressSet}
    {next : Outcome first.Result → Program Answer}
    (found : pool.programs[index]? = some (.touch first cells next)) :
    pool.advance index =
      { pool with
        store := (first.perform pool.locks pool.store).2
        programs := pool.programs.set index (next (first.perform pool.locks pool.store).1) } := by
  unfold advance
  rw [found]

theorem advance_of_ended {pool : Pool} {index : Nat}
    (ended : ∀ first cells next, pool.programs[index]? ≠ some (.touch first cells next)) :
    pool.advance index = pool := by
  unfold advance
  split
  · rename_i first cells next found
    exact absurd found (ended first cells next)
  · rfl

/-- A turn of the pool makes a touch, or it changes nothing. -/
theorem advance_cases (pool : Pool) (index : Nat) :
    (∃ first cells next, pool.programs[index]? = some (.touch first cells next) ∧
      (pool.advance index).store = (first.perform pool.locks pool.store).2) ∨
    (∀ first cells next, pool.programs[index]? ≠ some (.touch first cells next)) ∧
      pool.advance index = pool := by
  by_cases touches : ∃ first cells next, pool.programs[index]? = some (.touch first cells next)
  · obtain ⟨first, cells, next, found⟩ := touches
    exact .inl ⟨first, cells, next, found, by rw [advance_of_touch found]⟩
  · have ended (first : Touch) (cells : AddressSet) (next : Outcome first.Result → Program Answer) :
        pool.programs[index]? ≠ some (.touch first cells next) := fun found =>
      touches ⟨first, cells, next, found⟩
    exact .inr ⟨ended, advance_of_ended ended⟩

/-- The pool after the turns of a schedule. -/
def after (pool : Pool) (schedule : List Nat) : Pool := schedule.foldl advance pool

theorem after_append (pool : Pool) (schedule later : List Nat) :
    pool.after (schedule ++ later) = (pool.after schedule).after later :=
  List.foldl_append

/-- The programs of a pool stay in their places. -/
theorem length_after (pool : Pool) (schedule : List Nat) :
    (pool.after schedule).programs.length = pool.programs.length := by
  induction schedule generalizing pool with
  | nil => rfl
  | cons index schedule ih =>
    refine (ih _).trans ?_
    unfold advance
    split
    · exact List.length_set
    · rfl

/-- A program that gets enough turns in a row ends. -/
theorem exists_ended {pool : Pool} {index : Nat} {program : Program Answer}
    (found : pool.programs[index]? = some program) :
    ∃ turns outcome, (pool.after (List.replicate turns index)).programs[index]? =
      some (.ended outcome) := by
  induction program generalizing pool with
  | ended outcome => exact ⟨0, outcome, found⟩
  | touch first cells next ih =>
    have inside := (List.getElem?_eq_some_iff.mp found).1
    have advanced : (pool.advance index).programs[index]? =
        some (next (first.perform pool.locks pool.store).1) := by
      rw [advance_of_touch found]
      simp [inside]
    obtain ⟨turns, outcome, ended⟩ := ih _ advanced
    exact ⟨turns + 1, outcome, ended⟩

theorem cells_subset_locks {pool : Pool} {index : Nat} {program : Program Answer}
    (found : pool.programs[index]? = some program) : program.cells ⊆ pool.locks := by
  intro address member
  simp only [locks, AddressSet.mem_union, AddressSet.mem_unions, List.mem_map]
  exact .inr ⟨_, ⟨program, List.mem_of_getElem? found, rfl⟩, member⟩

end Pool

/-- A touch leads to a later store. -/
theorem Touch.later (touch : Touch) {held wider : AddressSet} (within : held ⊆ wider)
    (store : Store) : Store.Later held store (touch.perform wider store).2 := by
  cases touch with
  | use cell => exact Run.evolves_resolve cell wider within store
  | enter operation name =>
    exact Run.evolves_logging (fun log => log.refuses_enter operation name) wider within store
  | leave operation name ok =>
    exact Run.evolves_logging (fun log => log.refuses_leave operation name ok) wider within store
  | builds => exact .refl held store
  | collect => exact (Store.Change.collect within).later

end TwoWayGrammar
