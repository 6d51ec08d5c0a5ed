import TwoWayGrammar.Proofs.Meaning.Building
import TwoWayGrammar.Proofs.Schedule.Pool

namespace TwoWayGrammar

open Behaviour

/-- Further meanings of cells leave the first ones as they are. -/
structure Extends (cells : Address → Meaning) (size : Nat) (others : Address → Meaning)
    (larger : Nat) : Prop where
  within : size ≤ larger
  agree : ∀ cell < size, others cell = cells cell

theorem Extends.refl (cells : Address → Meaning) (size : Nat) : Extends cells size cells size :=
  ⟨Nat.le_refl size, fun _ _ => rfl⟩

theorem Extends.trans {cells others last : Address → Meaning} {size larger largest : Nat}
    (first : Extends cells size others larger) (second : Extends others larger last largest) :
    Extends cells size last largest where
  within := Nat.le_trans first.within second.within
  agree cell inside :=
    (second.agree cell (Nat.lt_of_lt_of_le inside first.within)).trans (first.agree cell inside)

namespace Naming

/-- A store fulfils the meanings of some names when all its cells and these names mean what they should,
every cell is owned by one of the roots, of these names or of the cells, and the log cannot refuse. -/
structure Fulfils (naming : Naming) (roots : AddressSet) (eager : List Text)
    (eagers : Text → Meaning) (cells : Address → Meaning) (store : Store) : Prop where
  means : ∀ (address : Address) (cell : Cell), store.cells[address]? = some cell →
    naming.CellMeans cells store.cells.length cell (cells address)
  names : ∀ name ∈ eager, ∃ built, store.find? name = some built ∧
    built.grammar.Denotes cells store.cells.length (eagers name)
  owned : ∀ address : Address, address < store.cells.length → address ∈ roots ∨
    (∃ name ∈ eager, ∃ built, store.find? name = some built ∧ address ∈ built.owned) ∨
      ∃ (owner : Address) (built : Built), store.cells[owner]? = some (.holding built) ∧
        address ∈ built.owned
  quiet : store.Quiet

variable {naming : Naming} {roots more : AddressSet} {eager : List Text} {eagers : Text → Meaning}
  {cells others : Address → Meaning} {store after : Store}

/-- Nothing is collected in a store that fulfils its meanings. -/
theorem Fulfils.collect (fulfils : naming.Fulfils ∅ eager eagers cells store) (held : AddressSet) :
    store.collect held = store := by
  refine Store.collect_of_owned fun address inside => ?_
  rcases fulfils.owned address inside with root | ⟨name, _, built, found, member⟩ |
    ⟨owner, built, holds, member⟩
  · exact absurd root (AddressSet.not_mem_empty address)
  · exact Store.mem_owned_of_entry found member
  · exact Store.mem_owned_of_cell holds member

/-- Neither the log nor the count of builds matters to what a store means. -/
theorem Fulfils.of_eq (fulfils : naming.Fulfils roots eager eagers cells store)
    (same : after.cells = store.cells) (table : after.table = store.table)
    (quiet : after.Quiet) : naming.Fulfils roots eager eagers cells after where
  means address cell found := by
    rw [same] at found ⊢
    exact fulfils.means address cell found
  names name member := by
    rw [same, Store.find?, table]
    exact fulfils.names name member
  owned address inside := by
    rw [same] at inside ⊢
    simp only [Store.find?, table]
    exact fulfils.owned address inside
  quiet := quiet

/-- The order in which the names are listed does not matter. -/
theorem Fulfils.of_same_names (fulfils : naming.Fulfils roots eager eagers cells store)
    {listed : List Text} (same : ∀ name, name ∈ listed ↔ name ∈ eager) :
    naming.Fulfils roots listed eagers cells store where
  means := fulfils.means
  names name member := fulfils.names name ((same name).mp member)
  owned address inside := by
    refine (fulfils.owned address inside).imp_right (Or.imp_left ?_)
    rintro ⟨name, member, held⟩
    exact ⟨name, (same name).mpr member, held⟩
  quiet := fulfils.quiet

/-- What is built besides adds its own cells to the roots. -/
theorem Fulfils.grows (fulfils : naming.Fulfils ∅ eager eagers cells store)
    (covered : ∀ name ∈ eager, name ∈ naming.known)
    (grows : naming.Grows cells store others after roots) :
    naming.Fulfils roots eager eagers others after where
  means address cell found := by
    rcases Nat.lt_or_ge address store.cells.length with early | fresh
    · rw [grows.cells_eq early] at found
      rw [grows.agree address early]
      exact (fulfils.means address cell found).mono grows.frame.length grows.agree
    · exact grows.means address cell fresh found
  names name member := by
    obtain ⟨built, found, means⟩ := fulfils.names name member
    exact ⟨built, (grows.names name (covered name member)).trans found,
      means.mono grows.frame.length grows.agree⟩
  owned address inside := by
    rcases Nat.lt_or_ge address store.cells.length with early | fresh
    · rcases fulfils.owned address early with root | ⟨name, listed, built, found, member⟩ |
        ⟨owner, built, holds, member⟩
      · exact absurd root (AddressSet.not_mem_empty address)
      · exact .inr (.inl ⟨name, listed, built,
          (grows.names name (covered name listed)).trans found, member⟩)
      · refine .inr (.inr ⟨owner, built, ?_, member⟩)
        rw [grows.cells_eq (List.getElem?_eq_some_iff.mp holds).1, holds]
    · exact (grows.owned address fresh inside).imp_right .inr
  quiet := by
    change after.log.sink.refuses = false
    rw [grows.frame.log]
    exact fulfils.quiet

/-- A new name takes over what was built for it. -/
theorem Fulfils.define {built : Built} {meaning : Meaning}
    (fulfils : naming.Fulfils built.owned eager eagers cells store) {name : Text}
    (fresh : name ∉ eager) (denotes : built.grammar.Denotes cells store.cells.length meaning) :
    naming.Fulfils ∅ (name :: eager) (Function.update eagers name meaning) cells
      (store.define name built) := by
  have kept {other : Text} (member : other ∈ eager) :
      (store.define name built).find? other = store.find? other :=
    Store.find?_define_of_ne _ _ fun same => fresh (same ▸ member)
  refine ⟨fulfils.means, fun other member => ?_, fun address inside => ?_, fulfils.quiet⟩
  · by_cases same : other = name
    · subst same
      rw [Function.update_self]
      exact ⟨built, Store.find?_define _ _ _, denotes⟩
    · have earlier := (List.mem_cons.mp member).resolve_left same
      rw [Function.update_of_ne same, kept earlier]
      exact fulfils.names other earlier
  · rcases fulfils.owned address inside with root | ⟨other, listed, body, found, member⟩ | owner
    · exact .inr (.inl ⟨name, List.mem_cons_self, built, Store.find?_define _ _ _, root⟩)
    · exact .inr (.inl ⟨other, List.mem_cons_of_mem _ listed, body, (kept listed).trans found, member⟩)
    · exact .inr (.inr owner)

/-- The cell of a factory takes over what the factory built for it. -/
theorem Fulfils.fill {factory : Factory} {address : Address} {built : Built} {meaning : Meaning}
    (fulfils : naming.Fulfils built.owned eager eagers cells store)
    (pending : store.cells[address]? = some (.pending factory))
    (denotes : built.grammar.Denotes cells store.cells.length meaning)
    (unfolded : cells address = meaning.deeper) :
    naming.Fulfils ∅ eager eagers cells (store.setCell address (.holding built)) := by
  have length : (store.setCell address (.holding built)).cells.length = store.cells.length := by
    simp [Store.setCell]
  have present : address < store.cells.length := (List.getElem?_eq_some_iff.mp pending).1
  have filled : (store.setCell address (.holding built)).cells[address]? = some (.holding built) := by
    simp [Store.setCell, present]
  have kept {other : Address} (different : other ≠ address) :
      (store.setCell address (.holding built)).cells[other]? = store.cells[other]? := by
    simp [Store.setCell, Ne.symm different]
  refine ⟨fun other cell found => ?_, ?_, fun other inside => ?_, fulfils.quiet⟩
  · rw [length]
    by_cases same : other = address
    · rw [same] at found ⊢
      obtain rfl : Cell.holding built = cell := by simpa [filled] using found
      rw [unfolded]
      exact .holding denotes
    · rw [kept same] at found
      exact fulfils.means other cell found
  · rw [length]
    exact fulfils.names
  · rw [length] at inside
    rcases fulfils.owned other inside with root | name | ⟨owner, body, holds, member⟩
    · exact .inr (.inr ⟨address, built, filled, root⟩)
    · exact .inr (.inl name)
    · refine .inr (.inr ⟨owner, body, ?_, member⟩)
      have different : owner ≠ address := by
        rintro rfl
        simp [pending] at holds
      rw [kept different, holds]

/-- Once all names are defined, each of them means what it finally means. -/
abbrev FulfilsAll (naming : Naming) (cells : Address → Meaning) (store : Store) : Prop :=
  naming.Fulfils ∅ naming.known naming.late cells store

/-- The use of a cell gives a grammar that denotes what the cell means, seen from outside, and all other
meanings stay as they are. -/
theorem FulfilsAll.resolve (fulfils : naming.FulfilsAll cells store) {address : Address}
    (inside : address < store.cells.length) (held : AddressSet) :
    ∃ body after others meaning, Run.resolve address held store = (.returned body, after) ∧
      naming.FulfilsAll others after ∧
      Extends cells store.cells.length others after.cells.length ∧
      cells address = meaning.deeper ∧ body.Denotes others after.cells.length meaning := by
  obtain ⟨cell, found⟩ : ∃ cell, store.cells[address]? = some cell :=
    ⟨_, List.getElem?_eq_getElem inside⟩
  have means := fulfils.means address cell found
  generalize cells_eq : cells address = value at means
  cases means with
  | @holding built meaning denotes =>
    exact ⟨built.grammar, store, cells, meaning, Run.resolve_of_holding found, fulfils, .refl _ _,
      rfl, denotes⟩
  | @pending factory ready within regular =>
    let place : Place :=
      ⟨naming, naming.known, naming.late, factory.scope, factory.scope.meaning cells⟩
    let counted : Store := { store with builds := store.builds + 1 }
    have fits : place.Fits cells counted := ⟨fun _ member => member, within, rfl, fulfils.names⟩
    have bodyRegular : factory.body.RegularAt place := regular
    obtain ⟨built, after, others, ran, grows, denotes⟩ :=
      (Definition.build_builds bodyRegular).grows fits held
    have counting : naming.FulfilsAll cells counted := fulfils.of_eq rfl rfl fulfils.quiet
    have present : address < counted.cells.length := inside
    have waiting : after.cells[address]? = some (.pending factory) :=
      (grows.cells_eq present).trans found
    have filled : naming.FulfilsAll others (after.setCell address (.holding built)) :=
      (counting.grows (fun _ member => member) grows).fill waiting denotes
        ((grows.agree address present).trans cells_eq)
    have length : (after.setCell address (.holding built)).cells.length = after.cells.length := by
      simp [Store.setCell]
    refine ⟨built.grammar, _, others, _, ?_, filled, ⟨?_, grows.agree⟩, rfl, ?_⟩
    · rw [Run.resolve_of_pending found, Run.force_of_building ready]
      refine (Run.bind_of_returned ran).trans ?_
      change (Outcome.returned built.grammar,
        (after.setCell address (.holding built)).collect held) = _
      rw [filled.collect]
    · rw [length]
      exact grows.frame.length
    · rw [length]
      exact denotes

end Naming

namespace Program

variable {naming : Naming} {cells others last : Address → Meaning} {size larger : Nat}
  {store : Store} {α β : Type}

/-- A program delivers an outcome when it ends with it, however often the store changes in between in ways
that keep all meanings. -/
def Delivers (naming : Naming) :
    Program α → (cells : Address → Meaning) → (size : Nat) → Outcome α → Prop
  | ended result, _, _, outcome => result = outcome
  | touch first _ next, cells, size, outcome =>
    ∀ (others : Address → Meaning) (store : Store), naming.FulfilsAll others store →
      Extends cells size others store.cells.length → ∀ held,
        ∃ last, naming.FulfilsAll last (first.perform held store).2 ∧
          Extends others store.cells.length last (first.perform held store).2.cells.length ∧
          (next (first.perform held store).1).Delivers naming last
            (first.perform held store).2.cells.length outcome

/-- What a program delivers it delivers with further cells as well. -/
theorem Delivers.mono {program : Program α} {outcome : Outcome α}
    (delivers : program.Delivers naming cells size outcome)
    (beyond : Extends cells size others larger) :
    program.Delivers naming others larger outcome := by
  cases program with
  | ended result => exact delivers
  | touch first held next =>
    exact fun further store fulfils reached =>
      delivers further store fulfils (beyond.trans reached)

theorem Delivers.finish {program : Program α} {next : Outcome α → Program β} {middle : Outcome α}
    {outcome : Outcome β} (delivers : program.Delivers naming cells size middle)
    (further : ∀ others larger, Extends cells size others larger →
      (next middle).Delivers naming others larger outcome) :
    (program.finish next).Delivers naming cells size outcome := by
  induction program generalizing cells size with
  | ended result =>
    obtain rfl : result = middle := delivers
    exact further cells size (.refl cells size)
  | touch first held next' ih =>
    intro others store fulfils reached held
    obtain ⟨last, kept, extended, rest⟩ := delivers others store fulfils reached held
    refine ⟨last, kept, extended, ih _ rest fun latest largest beyond => ?_⟩
    exact further latest largest ((reached.trans extended).trans beyond)

/-- What a program delivers with some fuel is what a fuelled computation says. -/
def DeliversAs (naming : Naming) (cells : Address → Meaning) (size fuel : Nat) (α : Type)
    (program : Program α) (computation : Fuelled α) : Prop :=
  program.Delivers naming cells size (computation fuel)

theorem delivers_respects (naming : Naming) (cells : Address → Meaning) (size fuel : Nat) :
    Respects (DeliversAs naming cells size fuel) where
  pure _ := rfl
  stop _ := rfl
  bind {_ _ first other next following} delivers further := by
    refine Delivers.finish delivers fun others larger extended => ?_
    rw [Fuelled.bind_apply]
    cases other fuel with
    | returned result => exact (further result).mono extended
    | stopped fault => rfl
    | diverged => rfl

/-- A touch that keeps all meanings leaves what is delivered after it. -/
theorem delivers_perform {first : Touch} {next : Outcome first.Result → Program α} {held : AddressSet}
    {outcome : Outcome α} (result : Outcome first.Result → Prop)
    (keeps : ∀ others store, naming.FulfilsAll others store → ∀ held,
      result (first.perform held store).1 ∧
      naming.FulfilsAll others (first.perform held store).2 ∧
        (first.perform held store).2.cells = store.cells)
    (further : ∀ value, result value → (next value).Delivers naming cells size outcome) :
    (touch first held next).Delivers naming cells size outcome := by
  intro others store fulfils reached held
  obtain ⟨good, kept, same⟩ := keeps others store fulfils held
  refine ⟨others, kept, ?_, ?_⟩
  · rw [same]
    exact .refl _ _
  · rw [same]
    exact (further _ good).mono reached

variable {outcome : Outcome α}

theorem delivers_enter (operation name : Text) {next : Unit → Program α}
    (further : (next ()).Delivers naming cells size outcome) :
    (enter operation name >>= next).Delivers naming cells size outcome := by
  refine delivers_perform (· = .returned ()) (fun others store fulfils held => ?_) ?_
  · obtain ⟨log, opened⟩ := store.log.enter_of_quiet fulfils.quiet operation name
    have entered : (Touch.enter operation name).perform held store =
        (.returned (), { store with log }) := by
      change Run.logging (·.enter operation name) held store = _
      exact Run.logging_of_ok _ opened
    have same := store.log.refuses_enter operation name
    rw [opened] at same
    rw [entered]
    exact ⟨rfl, fulfils.of_eq rfl rfl (same.trans fulfils.quiet), rfl⟩
  · rintro _ rfl
    exact further

theorem delivers_leave (operation name : Text) (ok : Bool) {next : Unit → Program α}
    (further : (next ()).Delivers naming cells size outcome) :
    (leave operation name ok >>= next).Delivers naming cells size outcome := by
  refine delivers_perform (· = .returned ()) (fun others store fulfils held => ?_) ?_
  · obtain ⟨log, closed⟩ := store.log.leave_of_quiet fulfils.quiet operation name ok
    have left : (Touch.leave operation name ok).perform held store =
        (.returned (), { store with log }) := by
      change Run.logging (·.leave operation name ok) held store = _
      exact Run.logging_of_ok _ closed
    have same := store.log.refuses_leave operation name ok
    rw [closed] at same
    rw [left]
    exact ⟨rfl, fulfils.of_eq rfl rfl (same.trans fulfils.quiet), rfl⟩
  · rintro _ rfl
    exact further

theorem delivers_builds {next : Nat → Program α}
    (further : ∀ count, (next count).Delivers naming cells size outcome) :
    (builds >>= next).Delivers naming cells size outcome := by
  refine delivers_perform (fun result => ∃ count : Nat, result = .returned count)
    (fun others store fulfils held => ⟨⟨store.builds, rfl⟩, fulfils, rfl⟩) ?_
  rintro _ ⟨count, rfl⟩
  exact further count

theorem delivers_collect {next : Unit → Program α}
    (further : (next ()).Delivers naming cells size outcome) :
    (collect >>= next).Delivers naming cells size outcome := by
  refine delivers_perform (· = .returned ()) (fun others store fulfils held => ?_) ?_
  · have settled : Touch.collect.perform held store = (.returned (), store) :=
      congrArg (Prod.mk _) (fulfils.collect held)
    rw [settled]
    exact ⟨rfl, fulfils, rfl⟩
  · rintro _ rfl
    exact further

theorem Delivers.widen {program : Program α} (delivers : program.Delivers naming cells size outcome)
    (wider : AddressSet) : (program.widen wider).Delivers naming cells size outcome := by
  induction program generalizing cells size with
  | ended result => exact delivers
  | touch first held next ih =>
    intro others store fulfils reached held
    obtain ⟨last, kept, extended, rest⟩ := delivers others store fulfils reached held
    exact ⟨last, kept, extended, ih _ rest⟩

/-- Holding cells changes nothing that is delivered. -/
theorem Delivers.holding {program : Program α} (delivers : program.Delivers naming cells size outcome)
    (wider : AddressSet) : (program.holding wider).Delivers naming cells size outcome := by
  unfold Program.holding
  refine delivers_builds fun before => (delivers.widen wider).finish fun others larger extended => ?_
  cases outcome with
  | returned result =>
    refine delivers_builds fun after => ?_
    split
    · rfl
    · exact delivers_collect rfl
  | stopped fault => rfl
  | diverged => rfl

/-- Tracing changes nothing that is delivered. -/
theorem Delivers.traced {program : Program α} (delivers : program.Delivers naming cells size outcome)
    (operation name : Text) (ok : α → Bool) :
    (program.traced operation name ok).Delivers naming cells size outcome := by
  unfold Program.traced
  refine delivers_enter _ _ ?_
  cases outcome with
  | returned result =>
    have attempted : program.attempt.Delivers naming cells size (.returned (.ok result)) :=
      delivers.finish fun _ _ _ => rfl
    exact attempted.finish fun _ _ _ => delivers_leave _ _ _ rfl
  | stopped fault =>
    have attempted : program.attempt.Delivers naming cells size (.returned (.error fault)) :=
      delivers.finish fun _ _ _ => rfl
    exact attempted.finish fun _ _ _ => delivers_leave _ _ _ rfl
  | diverged =>
    have attempted : program.attempt.Delivers naming cells size .diverged :=
      delivers.finish fun _ _ _ => rfl
    exact attempted.finish fun _ _ _ => rfl

/-- The use of a cell delivers what the cell means when its grammars deliver one level deeper. -/
theorem delivers_use {fuel : Nat} {address : Address} (inside : address < size)
    {run : Grammar → Program α} (computation : Meaning → Fuelled α)
    (nested : ∀ {others larger body meaning}, Grammar.Denotes others larger body meaning →
      (run body).Delivers naming others larger ((computation meaning).deeper fuel))
    (deeper : ∀ meaning : Meaning, computation meaning.deeper = (computation meaning).deeper) :
    (use address >>= run).Delivers naming cells size (computation (cells address) fuel) := by
  intro others store fulfils reached held
  obtain ⟨body, after, last, meaning, resolved, kept, extended, same, denotes⟩ :=
    fulfils.resolve (Nat.lt_of_lt_of_le inside reached.within) held
  have performed : (Touch.use address).perform held store = (.returned body, after) := resolved
  rw [performed]
  refine ⟨last, kept, extended, ?_⟩
  rw [← reached.agree address inside, same, deeper]
  exact nested denotes

end Program

/-- The programs of a grammar deliver what the grammar denotes. -/
theorem Grammar.program_delivers {naming : Naming} {cells : Address → Meaning} {size : Nat}
    {grammar : Grammar} {meaning : Meaning} (denotes : grammar.Denotes cells size meaning)
    (fuel : Nat) :
    (grammar.program fuel).Related (Program.DeliversAs naming cells size fuel) meaning := by
  induction fuel using Nat.strongRecOn generalizing cells size grammar meaning with
  | _ fuel ih =>
    have reads {others larger} {body : Grammar} {inner : Meaning}
        (denotes : body.Denotes others larger inner) (input : Input) :
        ((body.programNested fuel).read input).Delivers naming others larger
          ((inner.read input).deeper fuel) := by
      cases fuel with
      | zero => rfl
      | succ fuel => exact (ih fuel (Nat.lt_succ_self fuel) denotes).read input
    have writes {others larger} {body : Grammar} {inner : Meaning}
        (denotes : body.Denotes others larger inner) (value : Value) (rest : Input) :
        ((body.programNested fuel).write value rest).Delivers naming others larger
          ((inner.write value rest).deeper fuel) := by
      cases fuel with
      | zero => rfl
      | succ fuel => exact (ih fuel (Nat.lt_succ_self fuel) denotes).write value rest
    have respects := Program.delivers_respects naming cells size fuel
    rw [Grammar.program_eq]
    refine denotes.behaves ⟨respects, rfl, fun items input => ?_, fun name {_ _} same => ?_,
      fun cell inside => ?_, fun cell inside => ?_⟩
    · exact respects.readMany items 0 (fun _ => rfl) (input.length + 1 + fuel) input
    · exact ⟨fun input => (same.read input).traced _ _ _,
        fun value rest => (same.write value rest).traced _ _ _⟩
    · exact ⟨fun input => Program.delivers_use inside (fun meaning => meaning.read input)
          (fun denotes => reads denotes input) fun _ => rfl,
        fun value rest => Program.delivers_use inside (fun meaning => meaning.write value rest)
          (fun denotes => writes denotes value rest) fun _ => rfl⟩
    · exact ⟨fun input => (Program.delivers_use inside (fun meaning => meaning.read input)
          (fun denotes => reads denotes input) fun _ => rfl).holding _,
        fun value rest => (Program.delivers_use inside (fun meaning => meaning.write value rest)
          (fun denotes => writes denotes value rest) fun _ => rfl).holding _⟩

/-- A program that nothing interrupts ends with what it delivers. -/
theorem Program.Delivers.run {naming : Naming} {cells others : Address → Meaning} {size : Nat}
    {α : Type} {program : Program α} {outcome : Outcome α}
    (delivers : program.Delivers naming cells size outcome) {store : Store}
    (fulfils : naming.FulfilsAll others store) (reached : Extends cells size others store.cells.length)
    (held : AddressSet) :
    (program.run held store).1 = outcome ∧
      ∃ last, naming.FulfilsAll last (program.run held store).2 := by
  induction program generalizing cells size others store with
  | ended result => exact ⟨delivers, others, fulfils⟩
  | touch first wider next ih =>
    obtain ⟨last, kept, _, rest⟩ := delivers others store fulfils reached (held ∪ wider)
    exact ih _ rest kept (.refl _ _)

/-- Each program of a pool delivers its own outcome. -/
def Pool.Delivers (naming : Naming) (outcomes : Nat → Outcome Answer) (pool : Pool) : Prop :=
  ∃ cells, naming.FulfilsAll cells pool.store ∧ ∀ (index : Nat) (program : Program Answer),
    pool.programs[index]? = some program →
      program.Delivers naming cells pool.store.cells.length (outcomes index)

/-- A turn of one program leaves what each of them delivers. -/
theorem Pool.Delivers.advance {naming : Naming} {outcomes : Nat → Outcome Answer} {pool : Pool}
    (delivers : pool.Delivers naming outcomes) (index : Nat) :
    (pool.advance index).Delivers naming outcomes := by
  by_cases touches : ∃ first cells next, pool.programs[index]? = some (.touch first cells next)
  · obtain ⟨first, held, next, found⟩ := touches
    obtain ⟨cells, fulfils, each⟩ := delivers
    obtain ⟨last, kept, extended, rest⟩ :=
      each index _ found cells pool.store fulfils (.refl _ _) pool.locks
    rw [Pool.advance_of_touch found]
    refine ⟨last, kept, fun other program member => ?_⟩
    rw [List.getElem?_set] at member
    split at member
    · rename_i same
      subst same
      split at member
      · obtain rfl := Option.some.inj member
        exact rest
      · simp at member
    · exact (each other program member).mono extended
  · rw [Pool.advance_of_ended fun first cells next found => touches ⟨first, cells, next, found⟩]
    exact delivers

/-- No schedule changes what the programs of a pool deliver. -/
theorem Pool.Delivers.after {naming : Naming} {outcomes : Nat → Outcome Answer} {pool : Pool}
    (delivers : pool.Delivers naming outcomes) (schedule : List Nat) :
    (pool.after schedule).Delivers naming outcomes := by
  induction schedule generalizing pool with
  | nil => exact delivers
  | cons index schedule ih => exact ih (delivers.advance index)

/-- A program that has ended in the pool has delivered. -/
theorem Pool.Delivers.ended {naming : Naming} {outcomes : Nat → Outcome Answer} {pool : Pool}
    (delivers : pool.Delivers naming outcomes) {index : Nat} {outcome : Outcome Answer}
    (ended : pool.programs[index]? = some (.ended outcome)) : outcome = outcomes index := by
  obtain ⟨_, _, each⟩ := delivers
  exact each index _ ended

end TwoWayGrammar
