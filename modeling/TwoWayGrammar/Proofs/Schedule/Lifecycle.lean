import TwoWayGrammar.Proofs.Grammar.Clauses
import TwoWayGrammar.Proofs.Schedule.Moves

namespace TwoWayGrammar

namespace Grammar

/-- A grammar contains a copy of the result of a recursive definition, directly or in a part. What a
dependent grammar picks is among the parts that it captured. A handle is no copy. -/
def Copies (knot : Address) : Grammar → Prop
  | primitive _ => False
  | adapt _ body => body.Copies knot
  | sequence first second => first.Copies knot ∨ second.Copies knot
  | thenDiscard body mark => body.Copies knot ∨ mark.Copies knot
  | discardThen mark body => mark.Copies knot ∨ body.Copies knot
  | choice first second => first.Copies knot ∨ second.Copies knot
  | many body => body.Copies knot
  | replicate _ _ body => body.Copies knot
  | dependent determinant _ _ captured => determinant.Copies knot ∨ knot ∈ captured
  | withDefault _ body => body.Copies knot
  | opt body => body.Copies knot
  | traced _ body => body.Copies knot
  | shared cell => knot = cell
  | handle _ => False

/-- A grammar owns a recursive definition when it contains a copy of the result. -/
theorem mem_owned {knot : Address} (grammar : Grammar) :
    knot ∈ grammar.owned ↔ grammar.Copies knot := by
  induction grammar with
  | primitive base => simp [owned, Copies]
  | adapt prism body ih => exact ih
  | sequence first second firstIh secondIh => simp [owned, Copies, firstIh, secondIh]
  | thenDiscard body mark bodyIh markIh => simp [owned, Copies, bodyIh, markIh]
  | discardThen mark body markIh bodyIh => simp [owned, Copies, bodyIh, markIh]
  | choice first second firstIh secondIh => simp [owned, Copies, firstIh, secondIh]
  | many body ih => exact ih
  | replicate capacity count body ih => exact ih
  | dependent determinant next extract captured determinantIh _ =>
    simp [owned, Copies, determinantIh]
  | withDefault default body ih => exact ih
  | opt body ih => exact ih
  | traced name body ih => exact ih
  | shared cell => simp [owned, Copies]
  | handle cell => simp [owned, Copies]

end Grammar

namespace Store

/-- Some copy of the result is left, in a named grammar, inside another recursive definition or in the
cell of a deferred one. -/
def Copied (store : Store) (knot : Address) : Prop :=
  (∃ entry ∈ store.table, entry.2.grammar.Copies knot) ∨
    ∃ (owner : Address) (built : Built), store.cells[owner]? = some (.holding built) ∧
      built.grammar.Copies knot

/-- What is owned has a copy, or it is held. -/
theorem owned_iff {store : Store} {held : AddressSet} {knot : Address} :
    knot ∈ store.owned held ↔ store.Copied knot ∨ knot ∈ held := by
  rw [mem_owned, or_comm, Copied]
  simp only [Built.owned_eq, Grammar.mem_owned]

instance (store : Store) (knot : Address) : Decidable (store.Copied knot) :=
  decidable_of_iff (knot ∈ store.owned ∅) (by simp [owned_iff, AddressSet.not_mem_empty])

/-- Whether a definition is there is decided by its copies and by what is held. -/
structure Decides (store : Store) (held : AddressSet) (knot : Address) (built : Built) : Prop where
  kept : store.Copied knot ∨ knot ∈ held → store.cells[knot]? = some (.holding built)
  lost : ¬ (store.Copied knot ∨ knot ∈ held) → store.cells[knot]? = some .released

theorem Follows.decides {store next : Store} {held : AddressSet} {knot : Address} {built : Built}
    (follows : Follows held store next) (sound : store.Sound)
    (holds : store.cells[knot]? = some (.holding built)) :
    (next.collect held).Decides held knot built where
  kept keeps := follows.holding_collect sound holds (fun member => follows.held member holds)
    (owned_iff.mpr keeps)
  lost gone := follows.releases_collect holds fun owned => gone (owned_iff.mp owned)

/-- Each use of the handle throws the message, in both directions, and changes nothing. -/
structure HandleThrows (store : Store) (knot : Address) (message : Text) : Prop where
  read : ∀ held fuel input, ∃ fault : GrammarFault, fault.message = message ∧
    (Grammar.handle knot).read fuel input held store = (.stopped (.grammar fault), store)
  write : ∀ held fuel value rest, ∃ fault : GrammarFault, fault.message = message ∧
    (Grammar.handle knot).write fuel value rest held store = (.stopped (.grammar fault), store)

/-- The first use ends as the second one does. At most, it releases at the end what is held no longer. -/
def EndsAs {α : Type} (held : AddressSet) (first second : Outcome α × Store) : Prop :=
  first.1 = second.1 ∧ (first.2 = second.2 ∨ first.2 = second.2.collect held)

/-- Each use of the handle ends as the same use of the result by one who holds a copy of it, in both
directions, and the result does what the body does. -/
structure HandleActs (store : Store) (knot : Address) (body : Grammar) : Prop where
  read : ∀ held fuel input,
    EndsAs held ((Grammar.handle knot).read fuel input held store)
      ((Grammar.shared knot).read fuel input (held ∪ {knot}) store) ∧
    (Grammar.shared knot).read fuel input (held ∪ {knot}) store =
      body.readNested fuel input (held ∪ {knot}) store
  write : ∀ held fuel value rest,
    EndsAs held ((Grammar.handle knot).write fuel value rest held store)
      ((Grammar.shared knot).write fuel value rest (held ∪ {knot}) store) ∧
    (Grammar.shared knot).write fuel value rest (held ∪ {knot}) store =
      body.writeNested fuel value rest (held ∪ {knot}) store

/-- What the handle throws before its definition is complete. -/
def tooEarly : Text := "recursive grammar used before its definition is complete".toList

/-- What the handle throws after its definition was released. -/
def tooLate : Text := "recursive grammar used after its definition was released".toList

variable {store : Store} {knot : Address} {built : Built}

theorem handleThrows_of_error {fault : GrammarFault} (missing : store.offer knot = .error fault) :
    store.HandleThrows knot fault.message where
  read held fuel input := by
    refine ⟨fault, rfl, ?_⟩
    have stopped : (Grammar.shared knot).read fuel input (held ∪ {knot}) store =
        (.stopped (.grammar fault), store) := by
      rw [Grammar.read_shared]
      exact Run.bind_of_stopped (Run.resolve_of_error missing)
    rw [Grammar.read_handle, Run.holding, stopped]
  write held fuel value rest := by
    refine ⟨fault, rfl, ?_⟩
    have stopped : (Grammar.shared knot).write fuel value rest (held ∪ {knot}) store =
        (.stopped (.grammar fault), store) := by
      rw [Grammar.write_shared]
      exact Run.bind_of_stopped (Run.resolve_of_error missing)
    rw [Grammar.write_handle, Run.holding, stopped]

theorem handleThrows_of_unfinished (found : store.cells[knot]? = some .unfinished) :
    store.HandleThrows knot tooEarly := by
  have missing : store.offer knot = .error .unfinished := by simp [offer, found, Cell.offer]
  exact handleThrows_of_error missing

theorem handleThrows_of_released (found : store.cells[knot]? = some .released) :
    store.HandleThrows knot tooLate := by
  have missing : store.offer knot = .error .released := by simp [offer, found, Cell.offer]
  exact handleThrows_of_error missing

theorem handleActs_of_holding (holds : store.cells[knot]? = some (.holding built)) :
    store.HandleActs knot built.grammar where
  read held fuel input := by
    rw [Grammar.read_handle, Grammar.read_shared]
    exact ⟨Run.holding_apply _ _ _ _, Run.bind_of_returned (Run.resolve_of_holding holds)⟩
  write held fuel value rest := by
    rw [Grammar.write_handle, Grammar.write_shared]
    exact ⟨Run.holding_apply _ _ _ _, Run.bind_of_returned (Run.resolve_of_holding holds)⟩

end Store

/-- How a recursive definition is tied. Its cell is the next one of the store. -/
structure Definition.Ties (exposure : Exposure) (name : Text) (body : Definition) (scope : Scope)
    (held : AddressSet) (store : Store) : Prop where
  /-- The build of the body only adds to the store. -/
  adds : Run.Adds (store.cells.length + 1) (body.build ((name, store.cells.length) :: scope))
  /-- While the body is being built, whatever was added so far, the handle throws. -/
  executing : ∀ {α : Type} {part : Run α}, Run.Adds (store.cells.length + 1) part → ∀ held,
    (part held (store.opened exposure name)).2.HandleThrows store.cells.length Store.tooEarly
  /-- When the body returned, the handle does what the result does. Whatever goes on from there, the
  definition is there at the next collection when it is kept, and released when it is not. -/
  returned : exposure ≠ .premature → ∀ {built : Built} {after : Store},
    body.build ((name, store.cells.length) :: scope) held (store.opened exposure name) =
      (.returned built, after) →
    ∃ last, (recursive exposure name body).build scope held store =
        (.returned (.shared store.cells.length), last) ∧
      last.HandleActs store.cells.length built.grammar ∧
      (store.Sound → ∀ {α : Type} {rest : Run α}, Run.GoesOn held rest →
        ((rest held last).2.collect held).Decides held store.cells.length built)
  /-- When the body threw, the fault passes on and the handle throws. -/
  threw : exposure ≠ .premature → ∀ {fault : Fault} {after : Store},
    body.build ((name, store.cells.length) :: scope) held (store.opened exposure name) =
      (.stopped fault, after) →
    ∃ last, (recursive exposure name body).build scope held store = (.stopped fault, last) ∧
      last.HandleThrows store.cells.length Store.tooLate ∧
      ∀ {α : Type} {rest : Run α}, Run.GoesOn held rest →
        ((rest held last).2.collect held).cells[store.cells.length]? = some .released
  /-- When the body runs the handle itself, it throws what the handle throws. -/
  premature : exposure = .premature → ∃ fault last, GrammarFault.message fault = Store.tooEarly ∧
    (recursive exposure name body).build scope held store = (.stopped (.grammar fault), last) ∧
    last.HandleThrows store.cells.length Store.tooLate ∧
    ∀ {α : Type} {rest : Run α}, Run.GoesOn held rest →
      ((rest held last).2.collect held).cells[store.cells.length]? = some .released

theorem Definition.ties (exposure : Exposure) (name : Text) (body : Definition) (scope : Scope)
    (held : AddressSet) (store : Store) : Ties exposure name body scope held store := by
  have adds := body.build_adds ((name, store.cells.length) :: scope) (store.cells.length + 1)
  have empty := adds.unfinished exposure name held
  have filled {after : Store} (found : after.cells[store.cells.length]? = some .unfinished)
      (cell : Cell) : (after.setCell store.cells.length cell).cells[store.cells.length]? = some cell := by
    have present := (List.getElem?_eq_some_iff.mp found).1
    simp [Store.setCell, present]
  have stays {last : Store} (gone : last.cells[store.cells.length]? = some .released) {α : Type}
      {rest : Run α} (goesOn : Run.GoesOn held rest) :
      ((rest held last).2.collect held).cells[store.cells.length]? = some .released :=
    (Store.shrinks_collect held _).released
      ((goesOn held (AddressSet.Subset.refl _) last).released gone)
  refine ⟨adds, fun adds held => Store.handleThrows_of_unfinished (adds.unfinished exposure name held),
    fun late built after ran => ?_, fun late fault after ran => ?_, fun early => ?_⟩
  · rw [ran] at empty
    have closed : (recursive exposure name body).build scope held store =
        (.returned (.shared store.cells.length),
          after.setCell store.cells.length (.holding built)) := by
      rw [build_recursive_apply late, ran]
    refine ⟨_, closed, Store.handleActs_of_holding (filled empty _), fun sound α rest goesOn => ?_⟩
    have founds := (recursive exposure name body).build_founds scope ∅ held store ∅
      (AddressSet.Subset.refl _) sound
    rw [closed] at founds
    exact (goesOn held (AddressSet.Subset.refl _) _).decides founds.1 (filled empty _)
  · rw [ran] at empty
    have closed : (recursive exposure name body).build scope held store =
        (.stopped fault, after.setCell store.cells.length .released) := by
      rw [build_recursive_apply late, ran]
    exact ⟨_, closed, Store.handleThrows_of_released (filled empty _), stays (filled empty _)⟩
  · subst early
    have gone : ((store.addCell .unfinished).setCell store.cells.length .released).cells[
        store.cells.length]? = some .released := filled (by simp [Store.addCell]) _
    exact ⟨.unfinished, _, rfl, build_premature_apply name body scope held store,
      Store.handleThrows_of_released gone, stays gone⟩

namespace Pool

/-- A recursive definition is kept while a copy of its result is left, or while some run goes on that
holds it. A run holds what the grammar owns that it was started on, and a run of the handle holds the
definition. -/
def Keeps (pool : Pool) (knot : Address) : Prop :=
  pool.store.Copied knot ∨ knot ∈ pool.locks

theorem mem_owned {pool : Pool} {knot : Address} : knot ∈ pool.owned ↔ pool.Keeps knot :=
  Store.owned_iff

/-- How a recursive definition goes on from a pool. -/
structure Lives (pool : Pool) (knot : Address) : Prop where
  /-- The body is not being built any more. -/
  finished : pool.store.cells[knot]? ≠ some .unfinished
  /-- The definition is there only while it is kept. Handles do not keep it. -/
  kept : ∀ {built : Built}, pool.store.cells[knot]? = some (.holding built) → pool.Keeps knot
  /-- The handle does what the result does through all moves after which the definition is kept. After
  the first move that leaves it without a copy and without a run, the handle throws for good. -/
  goesOn : ∀ {built : Built}, pool.store.cells[knot]? = some (.holding built) →
    pool.store.HandleActs knot built.grammar ∧ ∀ {last : Pool}, Reaches pool last →
      (Relation.ReflTransGen (fun pool next => Move pool next ∧ next.Keeps knot) pool last ∧
        last.store.HandleActs knot built.grammar) ∨
      ∃ middle next,
        Relation.ReflTransGen (fun pool next => Move pool next ∧ next.Keeps knot) pool middle ∧
        Move middle next ∧ ¬ next.Keeps knot ∧ Reaches next last ∧
        last.store.HandleThrows knot Store.tooLate
  /-- Once the definition is released, the handle throws for good. -/
  released : pool.store.cells[knot]? = some .released → ∀ {last : Pool}, Reaches pool last →
    last.store.HandleThrows knot Store.tooLate

/-- In a new pool, and after every move, each finished cell is owned. -/
theorem owned_of_reaches {sink : Sink} {pool : Pool} (moves : Reaches (new sink) pool) {cell : Address}
    {built : Built} (holds : pool.store.cells[cell]? = some (.holding built)) : cell ∈ pool.owned := by
  rcases moves.cases_tail with rfl | ⟨before, earlier, move⟩
  · simp [new, Store.new] at holds
  · obtain ⟨middle, _, rfl⟩ := move.leads (valid_of_reaches earlier (valid_new sink))
    exact Store.owned_of_live_collect holds (by simp)

/-- The life of every recursive definition, from the build of its body on, in every order of building,
copying, dropping and running its result and of running its handle. -/
theorem recursive_life_cycle {sink : Sink} {pool : Pool} (reached : Reaches (new sink) pool) :
    (∀ exposure name body scope held store,
      Definition.Ties exposure name body scope held store) ∧ ∀ knot, pool.Lives knot := by
  refine ⟨Definition.ties, fun knot => ?_⟩
  have valid := valid_of_reaches reached (valid_new sink)
  have keeping {first last : Pool} (moves : Keeping knot first last) :
      Relation.ReflTransGen (fun pool next => Move pool next ∧ next.Keeps knot) first last :=
    moves.lift id fun _ _ move => ⟨move.1, mem_owned.mp move.2⟩
  refine ⟨valid.complete knot (Nat.zero_le knot),
    fun holds => mem_owned.mp (owned_of_reaches reached holds),
    fun holds => ⟨Store.handleActs_of_holding holds, fun moves => ?_⟩,
    fun gone _ moves => Store.handleThrows_of_released (released_of_reaches moves valid gone)⟩
  rcases kept_or_released moves valid holds with ⟨kept, still⟩ |
    ⟨middle, next, kept, move, unowned, later, gone⟩
  · exact .inl ⟨keeping kept, Store.handleActs_of_holding still⟩
  · exact .inr ⟨middle, next, keeping kept, move, fun keeps => unowned (mem_owned.mpr keeps), later,
      Store.handleThrows_of_released gone⟩

/-- A body whose deferred part puts another grammar under the name of the definition. -/
def fadingBody : Definition :=
  .sequence (.lazy (.recursive .published "f".toList (.primitive (.literal (.char 'a')))))
    (.opt (.self "h".toList))

/-- A recursive definition with a published handle. -/
def fading : Definition := .recursive .published "h".toList fadingBody

/-- The definition is the only grammar of the session besides its handle. -/
def fadingDefined : Pool :=
  settle { new .unlimited with
    store := ((Step.define "f".toList fading).run 5 ∅ (Session.handOver (.new .unlimited))).2 }

/-- The definition was dropped. Its handle is left. -/
def fadingDropped : Pool :=
  settle { fadingDefined with
    store := ((Step.drop "f".toList).run 5 ∅ (Session.handOver fadingDefined.store)).2 }

/-- A run of the handle has been started. It is the only program. -/
def fadingStarted : Pool :=
  settle { fadingDefined with
    programs := [(Request.on (.read [.char 'a']) ((Grammar.handle 0).program 5)).widen ∅] }

/-- The run of the handle has come as far as the deferred part. -/
def fadingRun : Pool := (((fadingStarted.advance 0).settle.advance 0).settle.advance 0).settle

theorem reaches_fadingDefined : Reaches (new .unlimited) fadingDefined :=
  .single (.step (.define "f".toList fading) 5)

theorem reaches_fadingDropped : Reaches fadingDefined fadingDropped :=
  .single (.step (.drop "f".toList) 5)

theorem move_fadingStarted : Move fadingDefined fadingStarted := by
  have built : (Definition.named "h".toList).build [] fadingDefined.locks fadingDefined.store =
      (.returned ⟨.handle 0, ∅, rfl⟩, fadingDefined.store) := rfl
  exact .start built (.read [.char 'a']) 5

/-- From the build of the definition on the handle does what the definition does, and it throws after the
definition was dropped. -/
theorem recursive_life_cycle_fading :
    (∃ built last, fading.build [] ∅ (.new .unlimited) = (.returned (.shared 0), last) ∧
      last.HandleActs 0 (Built.grammar built)) ∧
    (Reaches (new .unlimited) fadingDefined ∧ ∃ built,
      fadingDefined.store.cells[0]? = some (.holding built) ∧
      fadingDefined.store.HandleActs 0 built.grammar) ∧
    Reaches fadingDefined fadingDropped ∧ fadingDropped.store.HandleThrows 0 Store.tooLate := by
  obtain ⟨ties, alive⟩ := recursive_life_cycle reaches_fadingDefined
  obtain ⟨last, closed, acts, _⟩ :=
    (ties .published "h".toList fadingBody [] ∅ (.new .unlimited)).returned (by simp) rfl
  obtain ⟨built, holds⟩ : ∃ built, fadingDefined.store.cells[0]? = some (.holding built) := ⟨_, rfl⟩
  have gone : fadingDropped.store.cells[0]? = some .released := rfl
  have dead := (recursive_life_cycle (reaches_fadingDefined.trans reaches_fadingDropped)).2
  exact ⟨⟨_, last, closed, acts⟩, ⟨reaches_fadingDefined, built, holds, ((alive 0).goesOn holds).1⟩,
    reaches_fadingDropped, (dead 0).released gone .refl⟩

/-- Copies alone do not decide. The definition was complete and had a copy, then a run of the handle was
started and went on alone. Now no copy is left, neither in the store nor with a program, since the only
program was started on the handle and holds nothing but the definition. Still the handle does not throw. -/
theorem handle_runs_without_copies :
    (Reaches (new .unlimited) fadingDefined ∧ fadingDefined.store.Copied 0 ∧
      ∃ built, fadingDefined.store.cells[0]? = some (.holding built)) ∧
    (Move fadingDefined fadingStarted ∧
      Relation.ReflTransGen (fun pool next => next = (pool.advance 0).settle) fadingStarted fadingRun) ∧
    (¬ fadingRun.store.Copied 0 ∧ ¬ (Grammar.handle 0).Copies 0 ∧ fadingRun.held = ∅ ∧
      fadingRun.programs.map Program.cells = [{0}]) ∧
    ¬ fadingRun.store.HandleThrows 0 Store.tooLate := by
  have copied : fadingDefined.store.Copied 0 := by decide
  have uncopied : ¬ fadingRun.store.Copied 0 := by decide
  have turns : Relation.ReflTransGen (fun pool next => next = (pool.advance 0).settle)
      fadingStarted fadingRun := .head rfl (.head rfl (.single rfl))
  refine ⟨⟨reaches_fadingDefined, copied, _, rfl⟩, ⟨move_fadingStarted, turns⟩,
    ⟨uncopied, id, rfl, rfl⟩, fun throws => ?_⟩
  obtain ⟨fault, -, stopped⟩ := throws.read ∅ 5 [.char 'a']
  have succeeds : ((Grammar.handle 0).read 5 [.char 'a'] ∅ fadingRun.store).1 =
      .returned (.success (.pair .unit .absent) []) := rfl
  rw [stopped] at succeeds
  cases succeeds

end Pool

end TwoWayGrammar
