import TwoWayGrammar.Proofs.Run.Steps
import TwoWayGrammar.Proofs.Schedule.Pool
import TwoWayGrammar.Proofs.Store.Soundness
import TwoWayGrammar.Session.Report

namespace TwoWayGrammar

namespace Run

variable {held : AddressSet}

theorem goesOn_current : GoesOn held current := fun _ _ store => .refl held store

/-- A change of anything but cells goes on when it keeps a store sound. -/
theorem goesOn_modify {change : Store → Store} (cells : ∀ store, (change store).cells = store.cells)
    (sound : ∀ store : Store, store.Sound → (change store).Sound) : GoesOn held (modify change) :=
  fun _ _ store => Store.follows_of_cells (sound store)
    (fun complete address => by rw [modify, cells]; exact complete address)
    fun _ _ => by rw [modify, cells]

theorem goesOn_settle : GoesOn held settle := fun _ within _ =>
  (Store.Change.collect within).later.follows

end Run

namespace Definition

open Run

variable {held : AddressSet}

theorem build_goesOn (definition : Definition) (scope : Scope) :
    GoesOn held (definition.build scope) := by
  intro wider _ store
  obtain ⟨_, frame⟩ := definition.build_adds scope store.cells.length wider store (Nat.le_refl _)
  exact Store.follows_of_cells (fun sound => (definition.build_founds scope ∅ wider store ∅
    (AddressSet.Subset.refl _) sound).1) (definition.build_completes scope 0 wider store) frame.cells

end Definition

namespace Step

open Run

variable {held : AddressSet}

/-- Defining a name leaves the cells that were there, and a sound store stays sound. -/
theorem run_define_goesOn (fuel : Nat) (name : Text) (definition : Definition) :
    GoesOn held ((define name definition).run fuel) := by
  intro wider within store
  have goesOn := definition.build_goesOn [] wider within store
  have founds := definition.build_founds [] ∅ wider store ∅ (AddressSet.Subset.refl _)
  change Store.Follows held store
    ((definition.build [] >>= fun built => do
      modify fun store => store.define name built
      return Answer.done) wider store).2
  rcases found : definition.build [] wider store with ⟨outcome, after⟩
  rw [found] at goesOn founds
  cases outcome with
  | returned built =>
    rw [bind_of_returned found]
    exact
      { goesOn with
        sound := fun sound => (((founds sound).2 built rfl).define name
          (AddressSet.subset_union_right _ _)).sound }
  | stopped fault => rwa [bind_of_stopped found]
  | diverged => rwa [bind_of_diverged found]

theorem goesOn_carried (held : AddressSet) (fuel : Nat) : Carried fuel fun run => GoesOn held run where
  pure := goesOn_pure
  stop := goesOn_stop
  current := goesOn_current
  bind := GoesOn.bind
  attempt := GoesOn.attempt
  holding cells _ goesOn := goesOn.holding cells
  settle := goesOn_settle
  build := Definition.build_goesOn
  read grammar input := (grammar.read_evolves held fuel input).goesOn
  write grammar value rest := (grammar.write_evolves held fuel value rest).goesOn
  define := run_define_goesOn fuel
  erase name := goesOn_modify (fun _ => rfl) fun _ sound => sound.erase name
  enable _ := goesOn_modify (fun _ => rfl) fun _ sound => sound.of_eq rfl rfl

/-- Every step of a session goes on from its store. -/
theorem run_goesOn (step : Step) (fuel : Nat) : GoesOn held (step.run fuel) := by
  have logs {action : TraceLog → Except TraceLog TraceLog}
      (same : ∀ log, (eitherWay (action log)).sink.refuses = log.sink.refuses) :
      GoesOn held (do logging action; return Answer.done) :=
    (evolves_logging same).goesOn.bind fun _ => goesOn_pure _
  refine (goesOn_carried held fuel).step step ?_ ?_
  · rintro operation name rfl
    exact logs fun log => log.refuses_enter operation name
  · rintro operation name ok rfl
    exact logs fun log => log.refuses_leave operation name ok

end Step

namespace Program

variable {α β : Type} {program : Program α} {cells : AddressSet}

/-- A calm program holds more than before only after it looked at the count of builds, which releases
nothing. -/
def Calm : Program α → Prop
  | ended _ => True
  | touch first cells next =>
    ∀ result, (next result).Calm ∧ (first = .builds ∨ (next result).cells ⊆ cells)

/-- A fresh program is calm and holds nothing at first. -/
structure Fresh (program : Program α) : Prop where
  calm : program.Calm
  free : program.cells = ∅

theorem fresh_ended (outcome : Outcome α) : Fresh (ended outcome) := ⟨trivial, rfl⟩

theorem fresh_perform (touch : Touch) : Fresh (perform touch) :=
  ⟨fun _ => ⟨trivial, .inr (AddressSet.empty_subset _)⟩, rfl⟩

theorem cells_finish {next : Outcome α → Program β} (further : ∀ outcome, (next outcome).Fresh) :
    (program.finish next).cells = program.cells := by
  cases program with
  | ended outcome => exact (further outcome).free
  | touch first cells rest => rfl

theorem Calm.finish (calm : program.Calm) {next : Outcome α → Program β}
    (further : ∀ outcome, (next outcome).Fresh) : (program.finish next).Calm := by
  induction program with
  | ended outcome => exact (further outcome).calm
  | touch first cells rest ih =>
    refine fun result => ⟨ih result (calm result).1, ?_⟩
    rw [cells_finish further]
    exact (calm result).2

theorem Fresh.finish (fresh : program.Fresh) {next : Outcome α → Program β}
    (further : ∀ outcome, (next outcome).Fresh) : (program.finish next).Fresh :=
  ⟨fresh.calm.finish further, (cells_finish further).trans fresh.free⟩

theorem Fresh.bind (fresh : program.Fresh) {next : α → Program β}
    (further : ∀ result, (next result).Fresh) : (program >>= next).Fresh :=
  fresh.finish fun
    | .returned result => further result
    | .stopped _ => fresh_ended _
    | .diverged => fresh_ended _

theorem Fresh.attempt (fresh : program.Fresh) : program.attempt.Fresh :=
  fresh.finish fun
    | .returned _ => fresh_ended _
    | .stopped _ => fresh_ended _
    | .diverged => fresh_ended _

theorem cells_widen (cells : AddressSet) (program : Program α) :
    (program.widen cells).cells ⊆ cells ∪ program.cells := by
  cases program with
  | ended outcome => exact AddressSet.empty_subset _
  | touch first inner rest => exact AddressSet.Subset.refl _

/-- What a program holds at all touches changes nothing about what it takes further. -/
theorem Calm.widen (calm : program.Calm) (cells : AddressSet) : (program.widen cells).Calm := by
  induction program with
  | ended outcome => trivial
  | touch first inner rest ih =>
    intro result
    refine ⟨ih result (calm result).1, (calm result).2.imp_right fun within => ?_⟩
    exact AddressSet.Subset.trans (cells_widen cells (rest result)) fun address member =>
      AddressSet.mem_union.mpr ((AddressSet.mem_union.mp member).imp_right (within address))

/-- A look at the count of builds may be followed by a program that holds more. -/
theorem fresh_builds_bind {next : Nat → Program β} (calm : ∀ count, (next count).Calm) :
    (builds >>= next).Fresh := by
  refine ⟨fun result => ⟨?_, .inl rfl⟩, rfl⟩
  cases result with
  | returned count => exact calm count
  | stopped fault => trivial
  | diverged => trivial

theorem Fresh.holding (fresh : program.Fresh) (cells : AddressSet) : (program.holding cells).Fresh := by
  refine fresh_builds_bind fun before => (fresh.calm.widen cells).finish fun outcome => ?_
  cases outcome with
  | returned result =>
    refine (fresh_perform .builds).bind fun after => ?_
    split
    · exact fresh_ended _
    · exact (fresh_perform .collect).bind fun _ => fresh_ended _
  | stopped fault => exact fresh_ended _
  | diverged => exact fresh_ended _

theorem Fresh.traced (fresh : program.Fresh) (operation name : Text) (ok : α → Bool) :
    (program.traced operation name ok).Fresh := by
  refine (fresh_perform (.enter operation name)).bind fun _ => fresh.attempt.bind fun attempted => ?_
  cases attempted with
  | ok result => exact (fresh_perform (.leave operation name (ok result))).bind fun _ => fresh_ended _
  | error fault => exact (fresh_perform (.leave operation name false)).bind fun _ => fresh_ended _

/-- A fresh program, next to any other one. -/
def BesideFresh (α : Type) (program _other : Program α) : Prop := program.Fresh

theorem fresh_respects : Behaviour.Respects BesideFresh where
  pure _ := fresh_ended _
  stop _ := fresh_ended _
  bind fresh further := Fresh.bind fresh further

theorem fresh_interpretation (patience : Nat) {enter : Grammar → Behaviour Program}
    (entered : ∀ body, (enter body).Related BesideFresh (enter body)) :
    (interpretation patience enter).Related BesideFresh (interpretation patience enter) where
  loop items input :=
    fresh_respects.readMany items 0 (fun _ => fresh_ended _) (input.length + 1 + patience) input
  traced _ _ _ same :=
    ⟨fun input => Fresh.traced (same.read input) _ _ _,
      fun value rest => Fresh.traced (same.write value rest) _ _ _⟩
  shared cell :=
    ⟨fun input => (fresh_perform (.use cell)).bind fun body => (entered body).read input,
      fun value rest => (fresh_perform (.use cell)).bind fun body => (entered body).write value rest⟩
  handle cell :=
    ⟨fun input => ((fresh_perform (.use cell)).bind fun body => (entered body).read input).holding _,
      fun value rest =>
        ((fresh_perform (.use cell)).bind fun body => (entered body).write value rest).holding _⟩

end Program

/-- The programs of grammars are fresh. -/
theorem Grammar.program_fresh (fuel : Nat) (grammar : Grammar) :
    (grammar.program fuel).Related Program.BesideFresh (grammar.program fuel) := by
  induction fuel generalizing grammar with
  | zero =>
    exact grammar.behaviour_related Program.fresh_respects
      (Program.fresh_interpretation 0 fun _ => .bottom (Program.fresh_ended _))
  | succ fuel ih =>
    exact grammar.behaviour_related Program.fresh_respects (Program.fresh_interpretation _ ih)

theorem Request.on_fresh (request : Request) (fuel : Nat) (grammar : Grammar) :
    (request.on (grammar.program fuel)).Fresh :=
  request.on_related Program.fresh_respects (grammar.program_fresh fuel)

namespace Pool

/-- A new session has no programs yet. -/
def new (sink : Sink) : Pool := ⟨∅, .new sink, []⟩

/-- What is owned is held, also by some program, or it is owned by the table or by a cell. -/
def owned (pool : Pool) : AddressSet := pool.store.owned pool.locks

/-- What nothing owns any more is released at once. -/
def settle (pool : Pool) : Pool := { pool with store := pool.store.collect pool.locks }

/-- In one move a program makes its touch, a grammar is built and a program started that runs it and holds
what it owns, or a step of the session is carried out. -/
inductive Move (pool : Pool) : Pool → Prop
  | turn (index : Nat) : Move pool (pool.advance index).settle
  | start {definition : Definition} {built : Built} {after : Store}
      (ran : definition.build [] pool.locks pool.store = (.returned built, after))
      (request : Request) (fuel : Nat) :
      Move pool (settle { pool with
        store := after
        programs := pool.programs ++
          [(request.on (built.grammar.program fuel)).widen built.owned] })
  | step (step : Step) (fuel : Nat) :
      Move pool (settle { pool with
        store := (step.run fuel pool.locks (Session.handOver pool.store)).2 })

/-- One move after the other. -/
abbrev Reaches : Pool → Pool → Prop := Relation.ReflTransGen Move

/-- A step of a session is a move. -/
theorem move_report (store : Store) (step : Step) (programs : List (Program Answer))
    (idle : AddressSet.unions (programs.map Program.cells) = ∅) :
    Move ⟨∅, store, programs⟩ ⟨∅, (Session.report store step).2, programs⟩ := by
  have locks (store : Store) : locks ⟨∅, store, programs⟩ = ∅ := by
    rw [Pool.locks, idle, AddressSet.union_empty]
  have moved : Move ⟨∅, store, programs⟩ _ := .step step Session.fuel
  rw [settle, locks, locks] at moved
  exact moved

/-- A valid pool has a sound and complete store and calm programs. -/
structure Valid (pool : Pool) : Prop where
  sound : pool.store.Sound
  complete : pool.store.Complete 0
  calm : ∀ program ∈ pool.programs, program.Calm

theorem valid_new (sink : Sink) : (new sink).Valid where
  sound := ⟨fun _ member => by
    rcases Store.mem_owned.mp member with root | ⟨_, listed, _⟩ | ⟨_, _, found, _⟩
    · exact absurd root (AddressSet.not_mem_empty _)
    · exact absurd listed List.not_mem_nil
    · simp [new, Store.new] at found⟩
  complete _ _ := by simp [new, Store.new]
  calm _ member := absurd member List.not_mem_nil

/-- One pool leads to another one, except for what is released at last. Programs hold more than before
only when no finished cell changed. -/
structure Leads (pool next : Pool) : Prop where
  follows : Store.Follows pool.locks pool.store next.store
  locks : next.locks ⊆ pool.locks ∨ ∀ {cell : Address} {built : Built},
    pool.store.cells[cell]? = some (.holding built) → next.store.cells[cell]? = some (.holding built)
  calm : ∀ program ∈ next.programs, program.Calm

variable {pool middle next last : Pool} {cell : Address} {built : Built}

theorem Valid.leads_advance (valid : pool.Valid) (index : Nat) : pool.Leads (pool.advance index) := by
  by_cases touches : ∃ first cells next, pool.programs[index]? = some (.touch first cells next)
  · obtain ⟨first, cells, next, found⟩ := touches
    have present := List.mem_of_getElem? found
    obtain ⟨calm, holds⟩ := valid.calm _ present (first.perform pool.locks pool.store).1
    have within : cells ⊆ pool.locks := cells_subset_locks found
    rw [advance_of_touch found]
    refine ⟨(first.later (AddressSet.Subset.refl _) pool.store).follows, ?_, fun program member => ?_⟩
    · rcases holds with rfl | fewer
      · exact .inr id
      · refine .inl fun address member => ?_
        rcases AddressSet.mem_union.mp member with held | member
        · exact AddressSet.subset_union_left _ _ address held
        · obtain ⟨_, counted, inside⟩ := AddressSet.mem_unions.mp member
          obtain ⟨program, listed, rfl⟩ := List.mem_map.mp counted
          rcases List.mem_or_eq_of_mem_set listed with old | rfl
          · obtain ⟨place, found⟩ := List.getElem?_of_mem old
            exact cells_subset_locks found address inside
          · exact within address (fewer address inside)
    · rcases List.mem_or_eq_of_mem_set member with old | rfl
      · exact valid.calm program old
      · exact calm
  · rw [advance_of_ended fun first cells next found => touches ⟨first, cells, next, found⟩]
    exact ⟨.refl _ _, .inr id, valid.calm⟩

/-- A move leads to a pool and releases what nothing owns there. -/
theorem Move.leads (move : Move pool next) (valid : pool.Valid) :
    ∃ middle, pool.Leads middle ∧ next = middle.settle := by
  cases move with
  | turn index => exact ⟨_, valid.leads_advance index, rfl⟩
  | @start definition built after ran request fuel =>
    have follows := definition.build_goesOn [] pool.locks (AddressSet.Subset.refl _) pool.store
    obtain ⟨_, frame⟩ := definition.build_adds [] pool.store.cells.length pool.locks pool.store
      (Nat.le_refl _)
    rw [ran] at follows frame
    refine ⟨_, ?_, rfl⟩
    refine ⟨follows, .inr fun holds => ?_, fun program member => ?_⟩
    · exact (frame.cells _ (List.getElem?_eq_some_iff.mp holds).1).trans holds
    · rcases List.mem_append.mp member with old | new
      · exact valid.calm program old
      · obtain rfl := List.mem_singleton.mp new
        exact (request.on_fresh fuel built.grammar).calm.widen built.owned
  | step step fuel =>
    have handed : Store.Follows pool.locks pool.store (Session.handOver pool.store) :=
      Store.follows_of_cells (fun sound => sound.of_eq rfl rfl) id fun _ _ => rfl
    have ran := step.run_goesOn fuel pool.locks (AddressSet.Subset.refl _)
      (Session.handOver pool.store)
    refine ⟨_, ?_, rfl⟩
    exact ⟨handed.trans ran, .inl (AddressSet.Subset.refl _), valid.calm⟩

theorem Move.valid (move : Move pool next) (valid : pool.Valid) : next.Valid := by
  obtain ⟨middle, leads, rfl⟩ := move.leads valid
  exact ⟨(leads.follows.sound valid.sound).collect middle.locks,
    (leads.follows.complete valid.complete).shrinks (Store.shrinks_collect _ _), leads.calm⟩

theorem valid_of_reaches (moves : Reaches pool next) (valid : pool.Valid) : next.Valid := by
  induction moves with
  | refl => exact valid
  | tail _ move ih => exact move.valid ih

/-- What is released stays released. -/
theorem Move.released (move : Move pool next) (valid : pool.Valid)
    (gone : pool.store.cells[cell]? = some .released) :
    next.store.cells[cell]? = some .released := by
  obtain ⟨middle, leads, rfl⟩ := move.leads valid
  exact (Store.shrinks_collect middle.locks middle.store).released (leads.follows.released gone)

theorem released_of_reaches (moves : Reaches pool next) (valid : pool.Valid)
    (gone : pool.store.cells[cell]? = some .released) :
    next.store.cells[cell]? = some .released := by
  induction moves with
  | refl => exact gone
  | tail before move ih => exact move.released (valid_of_reaches before valid) ih

/-- A finished cell that is owned after a move is there as before. What programs hold was held before or
did not change. -/
theorem Move.holding (move : Move pool next) (valid : pool.Valid)
    (holds : pool.store.cells[cell]? = some (.holding built)) (owned : cell ∈ next.owned) :
    next.store.cells[cell]? = some (.holding built) := by
  obtain ⟨middle, leads, rfl⟩ := move.leads valid
  refine leads.follows.holding_collect valid.sound holds (fun locked => ?_) owned
  rcases leads.locks with fewer | same
  · exact leads.follows.held (fewer cell locked) holds
  · exact same holds

/-- A finished cell that nothing owns after a move is released. -/
theorem Move.releases (move : Move pool next) (valid : pool.Valid)
    (holds : pool.store.cells[cell]? = some (.holding built)) (unowned : cell ∉ next.owned) :
    next.store.cells[cell]? = some .released := by
  obtain ⟨middle, leads, rfl⟩ := move.leads valid
  exact leads.follows.releases_collect holds unowned

/-- Moves after each of which something owns the cell. -/
abbrev Keeping (cell : Address) : Pool → Pool → Prop :=
  Relation.ReflTransGen fun pool next => Move pool next ∧ cell ∈ next.owned

/-- A finished cell stays through all moves that keep it, and the first move that does not releases it
for good. -/
theorem kept_or_released (moves : Reaches pool last) (valid : pool.Valid)
    (holds : pool.store.cells[cell]? = some (.holding built)) :
    (Keeping cell pool last ∧ last.store.cells[cell]? = some (.holding built)) ∨
      ∃ middle next, Keeping cell pool middle ∧ Move middle next ∧ cell ∉ next.owned ∧
        Reaches next last ∧ last.store.cells[cell]? = some .released := by
  induction moves with
  | refl => exact .inl ⟨.refl, holds⟩
  | @tail before after earlier move ih =>
    have valid := valid_of_reaches earlier valid
    rcases ih with ⟨keeping, holds⟩ | ⟨middle, next, keeping, lost, unowned, later, gone⟩
    · by_cases owned : cell ∈ after.owned
      · exact .inl ⟨keeping.tail ⟨move, owned⟩, move.holding valid holds owned⟩
      · exact .inr ⟨before, after, keeping, move, owned, .refl, move.releases valid holds owned⟩
    · exact .inr ⟨middle, next, keeping, lost, unowned, later.tail move, move.released valid gone⟩

end Pool

end TwoWayGrammar
