import Mathlib.Algebra.GroupWithZero.Nat
import Mathlib.Data.List.Basic
import TwoWayGrammar.Proofs.Grammar.Clauses
import TwoWayGrammar.Proofs.Schedule.Pool

namespace TwoWayGrammar

namespace Factory

/-- A run of a factory gives a grammar or stops with the factory's own fault. -/
def attempt (factory : Factory) : Run Built :=
  match factory.failures with
  | _ + 1 => Run.stop (.grammar (.factory factory.message))
  | 0 => factory.body.build factory.scope

/-- What is left of a factory after some failed runs. -/
def spent (factory : Factory) (runs : Nat) : Factory :=
  { factory with failures := factory.failures - runs }

/-- The cell of a factory after some failed runs and perhaps a success. -/
def cell (factory : Factory) (runs : Nat) : Option Built → Cell
  | none => .pending (factory.spent runs)
  | some built => .holding built

/-- A reliable factory builds its body whenever it has no failures left. -/
def Reliable (factory : Factory) : Prop :=
  ∀ held store, ∃ built after,
    factory.body.build factory.scope held store = (.returned built, after)

theorem spent_spent (factory : Factory) (first second : Nat) :
    (factory.spent first).spent second = factory.spent (first + second) := by
  simp [spent, Nat.sub_sub]

theorem spent_of_le {factory : Factory} {runs : Nat} (spentAll : factory.failures ≤ runs) :
    factory.spent runs = { factory with failures := 0 } := by
  simp [spent, Nat.sub_eq_zero_of_le spentAll]

/-- A factory with failures left throws its own fault. -/
theorem attempt_of_failing {factory : Factory} (failing : 0 < factory.failures)
    (held : AddressSet) (store : Store) :
    factory.attempt held store = (.stopped (.grammar (.factory factory.message)), store) := by
  obtain ⟨failures, left⟩ := Nat.exists_eq_add_one.mpr failing
  unfold attempt
  rw [left]
  rfl

theorem attempt_of_building {factory : Factory} (building : factory.failures = 0) :
    factory.attempt = factory.body.build factory.scope := by
  unfold attempt
  rw [building]

end Factory

/-- The count of builds goes up by one. -/
def Store.counted (store : Store) : Store := { store with builds := store.builds + 1 }

/-- A use of a cell happens at a store while some cells are held. -/
structure Use where
  held : AddressSet
  store : Store

namespace Use

variable (cell : Address) (use : Use)

/-- What the cell gives to the use. -/
def outcome : Outcome Grammar := (Run.resolve cell use.held use.store).1

/-- The store after the use of the cell. -/
def after : Store := (Run.resolve cell use.held use.store).2

/-- The factory runs once and throws its own fault, and the cell is not filled. -/
structure Throws (factory : Factory) (fault : Fault) : Prop where
  pending : use.store.cells[cell]? = some (.pending factory)
  thrown : (factory.attempt use.held use.store.counted).1 = .stopped fault
  outcome : use.outcome cell = .stopped fault
  builds : (use.after cell).builds = use.store.builds + 1
  empty : (use.after cell).cells[cell]? = some (.pending (factory.spent 1))

/-- The factory runs once and succeeds, and the use gets what it built. -/
structure Builds (factory : Factory) (built : Built) : Prop where
  pending : use.store.cells[cell]? = some (.pending factory)
  succeeded : (factory.attempt use.held use.store.counted).1 = .returned built
  outcome : use.outcome cell = .returned built.grammar
  builds : (use.after cell).builds = use.store.builds + 1

/-- The use gets what was built before, and nothing runs. -/
structure Gives (built : Built) : Prop where
  holds : use.store.cells[cell]? = some (.holding built)
  outcome : use.outcome cell = .returned built.grammar
  after : use.after cell = use.store

/-- Both directions of the deferred grammar stop with the fault. -/
def Stops (fault : Fault) : Prop :=
  (∀ fuel input, ((Grammar.shared cell).read fuel input use.held use.store).1 = .stopped fault) ∧
    ∀ fuel value rest,
      ((Grammar.shared cell).write fuel value rest use.held use.store).1 = .stopped fault

/-- Both directions of the deferred grammar do what the body does one level deeper. -/
def ActsAs (body : Grammar) : Prop :=
  (∀ fuel input, (Grammar.shared cell).read fuel input use.held use.store =
      body.readNested fuel input use.held (use.after cell)) ∧
    ∀ fuel value rest, (Grammar.shared cell).write fuel value rest use.held use.store =
      body.writeNested fuel value rest use.held (use.after cell)

variable {cell use}

theorem resolve_eq {outcome : Outcome Grammar} (found : use.outcome cell = outcome) :
    Run.resolve cell use.held use.store = (outcome, use.after cell) :=
  Prod.ext found rfl

theorem stops_of_outcome {fault : Fault} (stopped : use.outcome cell = .stopped fault) :
    use.Stops cell fault := by
  refine ⟨fun fuel input => ?_, fun fuel value rest => ?_⟩
  · rw [Grammar.read_shared, Run.bind_of_stopped (resolve_eq stopped)]
  · rw [Grammar.write_shared, Run.bind_of_stopped (resolve_eq stopped)]

theorem actsAs_of_outcome {body : Grammar} (returned : use.outcome cell = .returned body) :
    use.ActsAs cell body := by
  refine ⟨fun fuel input => ?_, fun fuel value rest => ?_⟩
  · rw [Grammar.read_shared, Run.bind_of_returned (resolve_eq returned)]
  · rw [Grammar.write_shared, Run.bind_of_returned (resolve_eq returned)]

/-- A use of a cell with a factory runs the factory once. It throws and leaves the factory, or it builds
and leaves what was built, unless that is collected at once. -/
theorem throws_or_builds {factory : Factory}
    (pending : use.store.cells[cell]? = some (.pending factory)) :
    (∃ fault, use.Throws cell factory fault) ∨
      ∃ built, use.Builds cell factory built ∧
        ((use.after cell).cells[cell]? = some (.holding built) ∨
          (use.after cell).cells[cell]? = some .released) := by
  have forced : Run.resolve cell use.held use.store = Run.force cell factory use.held use.store :=
    Run.resolve_of_pending pending
  have present : cell < use.store.cells.length := (List.getElem?_eq_some_iff.mp pending).1
  rcases Nat.eq_zero_or_pos factory.failures with building | failing
  · rw [Run.force_of_building building] at forced
    obtain ⟨ends, frame⟩ := factory.body.build_adds factory.scope use.store.cells.length use.held
      use.store.counted (Nat.le_refl _)
    rcases found : factory.body.build factory.scope use.held use.store.counted with ⟨built, middle⟩
    have attempted : factory.attempt use.held use.store.counted = (built, middle) := by
      rw [Factory.attempt_of_building building, found]
    rw [found] at ends frame
    cases built with
    | returned built =>
      have resolved := forced.trans (Run.bind_of_returned found)
      refine .inr ⟨built, ⟨pending, by rw [attempted], congrArg Prod.fst resolved, ?_⟩, ?_⟩
      · rw [after, resolved]
        exact (Store.builds_collect _ _).trans frame.builds
      · rw [after, resolved]
        have filled : (middle.setCell cell (.holding built)).cells[cell]? = some (.holding built) := by
          simp [Store.setCell, Nat.lt_of_lt_of_le present frame.length]
        exact (Store.shrinks_collect use.held _ cell).imp_left fun same => same.trans filled
    | stopped fault =>
      have resolved := forced.trans (Run.bind_of_stopped found)
      have same : factory.spent 1 = factory := by
        rw [Factory.spent_of_le (by omega), ← building]
      refine .inl ⟨fault, pending, by rw [attempted], congrArg Prod.fst resolved, ?_, ?_⟩
      · rw [after, resolved]
        exact frame.builds
      · rw [after, resolved, same]
        exact (frame.cells cell present).trans pending
    | diverged => exact absurd rfl ends
  · obtain ⟨failures, left⟩ := Nat.exists_eq_add_one.mpr failing
    have resolved := forced.trans (Run.force_of_failing left use.held)
    refine .inl ⟨_, pending, by rw [Factory.attempt_of_failing failing],
      congrArg Prod.fst resolved, ?_, ?_⟩
    · rw [after, resolved]
      rfl
    · rw [after, resolved]
      simp [Store.setCell, present, Factory.spent, left]

theorem gives_of_holding {built : Built}
    (holds : use.store.cells[cell]? = some (.holding built)) : use.Gives cell built :=
  have resolved : Run.resolve cell use.held use.store = (.returned built.grammar, use.store) :=
    Run.resolve_of_holding holds
  ⟨holds, congrArg Prod.fst resolved, congrArg Prod.snd resolved⟩

end Use

/-- How often the uses run the factory of the cell. -/
def factoryRuns (cell : Address) (uses : List Use) : Nat :=
  (uses.map fun use => (use.after cell).builds - use.store.builds).sum

/-- The uses of a cell so far, from the first one on: some that threw and then, if there was a
success, the one that built and some that were given what it built. -/
inductive Progress (cell : Address) (factory : Factory) : List Use → Option Built → Prop
  | start : Progress cell factory [] none
  | throws {uses : List Use} {use : Use} {fault : Fault} (before : Progress cell factory uses none)
      (thrown : use.Throws cell (factory.spent uses.length) fault) :
      Progress cell factory (uses ++ [use]) none
  | builds {uses : List Use} {use : Use} {built : Built}
      (before : Progress cell factory uses none)
      (succeeded : use.Builds cell (factory.spent uses.length) built) :
      Progress cell factory (uses ++ [use]) (some built)
  | gives {uses : List Use} {use : Use} {built : Built}
      (before : Progress cell factory uses (some built)) (given : use.Gives cell built) :
      Progress cell factory (uses ++ [use]) (some built)

/-- Each of the uses threw, and each time one failure more was spent. -/
def AllThrow (cell : Address) (factory : Factory) (uses : List Use) : Prop :=
  ∀ (index : Nat) (use : Use), uses[index]? = some use →
    ∃ fault, use.Throws cell (factory.spent index) fault

/-- The first of the uses built what the others were given. -/
def Served (cell : Address) (factory : Factory) (built : Built) (uses : List Use) : Prop :=
  ∃ first later, uses = first :: later ∧ first.Builds cell factory built ∧
    ∀ use ∈ later, use.Gives cell built

section Uses

variable {cell : Address} {factory : Factory} {uses : List Use} {last : Option Built}

/-- One more use goes on with the progress, when the cell survives it. -/
theorem Progress.step (progress : Progress cell factory uses last) {use : Use}
    (found : use.store.cells[cell]? = some (factory.cell uses.length last))
    (kept : (use.after cell).cells[cell]? ≠ some .released) :
    ∃ next, Progress cell factory (uses ++ [use]) next ∧
      (use.after cell).cells[cell]? = some (factory.cell (uses ++ [use]).length next) := by
  rw [List.length_append, List.length_singleton]
  cases last with
  | none =>
    rcases Use.throws_or_builds found with ⟨fault, thrown⟩ | ⟨built, succeeded, filled⟩
    · refine ⟨none, progress.throws thrown, ?_⟩
      rw [thrown.empty, Factory.spent_spent]
      rfl
    · exact ⟨some built, progress.builds succeeded, filled.resolve_right kept⟩
  | some built =>
    have given := Use.gives_of_holding found
    refine ⟨some built, progress.gives given, ?_⟩
    rw [given.after]
    exact found

theorem AllThrow.concat (all : AllThrow cell factory uses) {use : Use} {fault : Fault}
    (thrown : use.Throws cell (factory.spent uses.length) fault) :
    AllThrow cell factory (uses ++ [use]) := by
  intro index other found
  rcases Nat.lt_trichotomy index uses.length with before | rfl | beyond
  · rw [List.getElem?_append_left before] at found
    exact all index other found
  · rw [List.getElem?_concat_length] at found
    exact ⟨fault, Option.some.inj found ▸ thrown⟩
  · rw [List.getElem?_eq_none (by simp; omega)] at found
    simp at found

/-- Uses that made some progress threw, or they threw up to the one that built. -/
theorem Progress.split (progress : Progress cell factory uses last) :
    ∃ waiting served, uses = waiting ++ served ∧ AllThrow cell factory waiting ∧
      match last with
      | none => served = []
      | some built => Served cell (factory.spent waiting.length) built served := by
  induction progress with
  | start => exact ⟨[], [], rfl, by simp [AllThrow], rfl⟩
  | throws before thrown ih =>
    obtain ⟨waiting, served, same, all, rfl⟩ := ih
    obtain rfl := same.trans (List.append_nil waiting)
    exact ⟨_, [], (List.append_nil _).symm, all.concat thrown, rfl⟩
  | @builds uses use built before succeeded ih =>
    obtain ⟨waiting, served, same, all, rfl⟩ := ih
    obtain rfl := same.trans (List.append_nil waiting)
    exact ⟨_, [use], rfl, all, use, [], rfl, succeeded, by simp⟩
  | @gives uses use built before given ih =>
    obtain ⟨waiting, served, rfl, all, first, later, rfl, succeeded, others⟩ := ih
    refine ⟨waiting, first :: (later ++ [use]), by simp, all, first, _, rfl, succeeded, ?_⟩
    intro other member
    rcases List.mem_append.mp member with earlier | latest
    · exact others other earlier
    · exact List.mem_singleton.mp latest ▸ given

theorem factoryRuns_append (first second : List Use) :
    factoryRuns cell (first ++ second) = factoryRuns cell first + factoryRuns cell second := by
  simp [factoryRuns]

/-- The factory ran once for each use that threw. -/
theorem AllThrow.factoryRuns (all : AllThrow cell factory uses) :
    factoryRuns cell uses = uses.length := by
  have each : ∀ use ∈ uses, (use.after cell).builds - use.store.builds = 1 := by
    intro use member
    obtain ⟨index, found⟩ := List.getElem?_of_mem member
    obtain ⟨fault, thrown⟩ := all index use found
    rw [thrown.builds]
    omega
  unfold TwoWayGrammar.factoryRuns
  rw [List.map_congr_left each]
  simp

/-- The factory ran once for all uses that were served. -/
theorem Served.factoryRuns {built : Built} (served : Served cell factory built uses) :
    factoryRuns cell uses = 1 := by
  obtain ⟨first, later, rfl, succeeded, others⟩ := served
  have each : ∀ use ∈ later, (use.after cell).builds - use.store.builds = 0 := by
    intro use member
    rw [(others use member).after]
    omega
  have rest : (later.map fun use => (use.after cell).builds - use.store.builds).sum = 0 := by
    rw [List.map_congr_left each]
    simp
  unfold TwoWayGrammar.factoryRuns
  rw [List.map_cons, List.sum_cons, rest, succeeded.builds]
  omega

/-- Served uses do what the built grammar does. -/
theorem Served.actsAs {built : Built} (served : Served cell factory built uses) :
    ∀ use ∈ uses, use.ActsAs cell built.grammar := by
  obtain ⟨first, later, rfl, succeeded, others⟩ := served
  intro use member
  rcases List.mem_cons.mp member with rfl | member
  · exact Use.actsAs_of_outcome succeeded.outcome
  · exact Use.actsAs_of_outcome (others use member).outcome

/-- A reliable factory throws its own fault only, and only as often as it must. -/
theorem AllThrow.failing (all : AllThrow cell factory uses) (reliable : factory.Reliable)
    {index : Nat} {use : Use} (found : uses[index]? = some use) :
    index < factory.failures ∧ use.Stops cell (.grammar (.factory factory.message)) := by
  obtain ⟨fault, thrown⟩ := all index use found
  have attempted := thrown.thrown
  rcases Nat.lt_or_ge index factory.failures with failing | spentAll
  · have left : 0 < (factory.spent index).failures := Nat.sub_pos_of_lt failing
    rw [Factory.attempt_of_failing left] at attempted
    obtain rfl := Outcome.stopped.inj attempted
    exact ⟨failing, Use.stops_of_outcome thrown.outcome⟩
  · rw [Factory.spent_of_le spentAll, Factory.attempt_of_building rfl] at attempted
    obtain ⟨built, after, succeeded⟩ := reliable use.held use.store.counted
    rw [show factory.body.build factory.scope use.held use.store.counted = _ from succeeded]
      at attempted
    simp at attempted

theorem AllThrow.length_le (all : AllThrow cell factory uses) (reliable : factory.Reliable) :
    uses.length ≤ factory.failures := by
  rcases uses.eq_nil_or_concat' with rfl | ⟨before, use, rfl⟩
  · exact Nat.zero_le _
  · have latest := (all.failing reliable (List.getElem?_concat_length (l := before) (a := use))).1
    rw [List.length_append, List.length_singleton]
    exact latest

/-- A factory that built has no failures left. -/
theorem Served.failures_eq {built : Built} (served : Served cell factory built uses) :
    factory.failures = 0 := by
  obtain ⟨first, later, rfl, succeeded, others⟩ := served
  rcases Nat.eq_zero_or_pos factory.failures with none | failing
  · exact none
  · have attempted := succeeded.succeeded
    rw [Factory.attempt_of_failing failing] at attempted
    simp at attempted

end Uses

/-- A touch that does not use a cell leaves it as it is or releases it. -/
theorem Touch.spares {touch : Touch} {cell : Address} (other : touch ≠ .use cell)
    {held : AddressSet} {store : Store} (present : cell < store.cells.length) :
    (touch.perform held store).2.cells[cell]? = store.cells[cell]? ∨
      (touch.perform held store).2.cells[cell]? = some .released := by
  cases touch with
  | use used =>
    have different : cell ≠ used := fun same => other (same ▸ rfl)
    change (Run.resolve used held store).2.cells[cell]? = store.cells[cell]? ∨
      (Run.resolve used held store).2.cells[cell]? = some .released
    rcases Run.resolve_cases used held store with ⟨built, _, same⟩ | ⟨factory, pending, same⟩ |
      ⟨fault, same⟩
    · rw [same]
      exact .inl rfl
    · obtain ⟨middle, _, others, _, _, _, ⟨fault, forced⟩ | ⟨built, _, forced⟩⟩ :=
        Run.force_cases pending held
      · rw [same, forced]
        exact .inl (others cell present different)
      · rw [same, forced]
        rw [← others cell present different]
        exact Store.shrinks_collect held middle cell
    · rw [same]
      exact .inl rfl
  | enter operation name =>
    exact .inl (by rw [Touch.perform, Run.logging_apply])
  | leave operation name ok =>
    exact .inl (by rw [Touch.perform, Run.logging_apply])
  | builds => exact .inl rfl
  | collect => exact Store.shrinks_collect held store cell

/-- What is released stays so at every touch. -/
theorem Touch.released (touch : Touch) {cell : Address} {held : AddressSet} {store : Store}
    (gone : store.cells[cell]? = some .released) :
    (touch.perform held store).2.cells[cell]? = some .released := by
  by_cases used : touch = .use cell
  · subst used
    change (Run.resolve cell held store).2.cells[cell]? = _
    rcases Run.resolve_cases cell held store with ⟨built, found, _⟩ | ⟨factory, found, _⟩ |
      ⟨fault, same⟩
    · simp [gone] at found
    · simp [gone] at found
    · rw [same, gone]
  · have present := (List.getElem?_eq_some_iff.mp gone).1
    rcases Touch.spares used present with same | released
    · rw [same, gone]
    · exact released

namespace Pool

/-- The use of the cell that the next turn of a program makes, if it makes one. -/
def usesOf (cell : Address) (pool : Pool) (index : Nat) : List Use :=
  match pool.programs[index]? with
  | some (.touch first _ _) =>
    match first with
    | .use used => if used = cell then [⟨pool.locks, pool.store⟩] else []
    | _ => []
  | _ => []

/-- Turns of a pool and changes from outside that leave the cell as it is, with the uses of the cell
that the turns made. From outside, programs may start, and everything else in the store may change. -/
inductive Moves (cell : Address) (start : Pool) : List Use → Pool → Prop
  | initial : Moves cell start [] start
  | turn {uses : List Use} {pool : Pool} (moves : Moves cell start uses pool) (index : Nat) :
      Moves cell start (uses ++ pool.usesOf cell index) (pool.advance index)
  | outside {uses : List Use} {pool next : Pool} (moves : Moves cell start uses pool)
      (same : next.store.cells[cell]? = pool.store.cells[cell]?) : Moves cell start uses next

variable {cell : Address} {pool : Pool} {index : Nat}

/-- A turn uses the cell, or it leaves the cell as it is or releases it. -/
theorem turn_cases (present : cell < pool.store.cells.length) (index : Nat) :
    (pool.usesOf cell index = [⟨pool.locks, pool.store⟩] ∧
      (pool.advance index).store = Use.after cell ⟨pool.locks, pool.store⟩) ∨
    (pool.usesOf cell index = [] ∧
      ((pool.advance index).store.cells[cell]? = pool.store.cells[cell]? ∨
        (pool.advance index).store.cells[cell]? = some .released)) := by
  rcases pool.advance_cases index with ⟨first, cells, next, found, advanced⟩ |
    ⟨ended, same⟩
  · by_cases used : first = .use cell
    · subst used
      refine .inl ⟨?_, advanced⟩
      unfold usesOf
      rw [found]
      simp
    · refine .inr ⟨?_, advanced ▸ Touch.spares used present⟩
      unfold usesOf
      rw [found]
      cases first with
      | use other =>
        have different : other ≠ cell := fun same => used (same ▸ rfl)
        simp [different]
      | _ => rfl
  · refine .inr ⟨?_, .inl (by rw [same])⟩
    unfold usesOf
    split
    · rename_i first cells next found
      exact absurd found (ended first cells next)
    · rfl

/-- A cell that is released before a turn is released after it. -/
theorem released_of_turn (gone : pool.store.cells[cell]? = some .released) (index : Nat) :
    (pool.advance index).store.cells[cell]? = some .released := by
  rcases pool.advance_cases index with ⟨first, cells, next, found, advanced⟩ | ⟨_, same⟩
  · rw [advanced]
    exact first.released gone
  · rw [same, gone]

/-- While the cell of a factory is not released, its uses make progress. -/
theorem Moves.progress {start last : Pool} {uses : List Use} {factory : Factory}
    (moves : Moves cell start uses last)
    (pending : start.store.cells[cell]? = some (.pending factory))
    (kept : last.store.cells[cell]? ≠ some .released) :
    ∃ built, Progress cell factory uses built ∧
      last.store.cells[cell]? = some (factory.cell uses.length built) := by
  induction moves with
  | initial => exact ⟨none, .start, pending⟩
  | @turn uses pool moves index ih =>
    obtain ⟨built, progress, found⟩ := ih fun gone => kept (released_of_turn gone index)
    have present := (List.getElem?_eq_some_iff.mp found).1
    rcases turn_cases present index with ⟨used, after⟩ | ⟨unused, same | gone⟩
    · rw [used]
      rw [after] at kept ⊢
      exact progress.step found kept
    · rw [unused, List.append_nil, same]
      exact ⟨built, progress, found⟩
    · exact absurd gone kept
  | outside moves same ih =>
    rw [same] at kept ⊢
    exact ih kept

/-- The factory of a deferred definition runs at each use until it succeeds, and never again. Each use
before that throws the factory's own fault and leaves the cell without a grammar. From the first
success on, each use does what the grammar does that was built then. -/
theorem factory_runs_until_success {start last : Pool} {uses : List Use} {factory : Factory}
    (moves : Moves cell start uses last)
    (pending : start.store.cells[cell]? = some (.pending factory))
    (kept : last.store.cells[cell]? ≠ some .released) :
    ∃ waiting served, uses = waiting ++ served ∧
      (∀ (index : Nat) (use : Use), waiting[index]? = some use →
        ∃ fault, use.Throws cell (factory.spent index) fault ∧ use.Stops cell fault) ∧
      ((served = [] ∧ last.store.cells[cell]? = some (.pending (factory.spent waiting.length))) ∨
        ∃ built, Served cell (factory.spent waiting.length) built served ∧
          (∀ use ∈ served, use.ActsAs cell built.grammar) ∧
          last.store.cells[cell]? = some (.holding built)) ∧
      factoryRuns cell uses = min uses.length (waiting.length + 1) ∧
      (factory.Reliable → waiting.length = min uses.length factory.failures ∧
        factoryRuns cell uses = min uses.length (factory.failures + 1) ∧
        ∀ use ∈ waiting, use.Stops cell (.grammar (.factory factory.message))) := by
  obtain ⟨last, progress, found⟩ := moves.progress pending kept
  obtain ⟨waiting, served, rfl, all, ending⟩ := progress.split
  have throws (index : Nat) (use : Use) (member : waiting[index]? = some use) :
      ∃ fault, use.Throws cell (factory.spent index) fault ∧ use.Stops cell fault := by
    obtain ⟨fault, thrown⟩ := all index use member
    exact ⟨fault, thrown, Use.stops_of_outcome thrown.outcome⟩
  have messages (reliable : factory.Reliable) (use : Use) (member : use ∈ waiting) :
      use.Stops cell (.grammar (.factory factory.message)) := by
    obtain ⟨index, inside⟩ := List.getElem?_of_mem member
    exact (all.failing reliable inside).2
  have runs := (factoryRuns_append waiting served).trans (congrArg (· + _) all.factoryRuns)
  refine ⟨waiting, served, rfl, throws, ?_⟩
  cases last with
  | none =>
    obtain rfl : served = [] := ending
    rw [List.append_nil] at found runs ⊢
    have few (reliable : factory.Reliable) := all.length_le reliable
    have ran : factoryRuns cell waiting = waiting.length := all.factoryRuns
    refine ⟨.inl ⟨rfl, found⟩, by omega, fun reliable => ?_⟩
    have := few reliable
    exact ⟨by omega, by omega, messages reliable⟩
  | some built =>
    have once : factoryRuns cell served = 1 := ending.factoryRuns
    have nonempty : 0 < served.length := by
      obtain ⟨first, later, rfl, _⟩ := ending
      exact Nat.succ_pos _
    rw [List.length_append]
    refine ⟨.inr ⟨built, ending, ending.actsAs, found⟩, by omega, fun reliable => ?_⟩
    have few := all.length_le reliable
    have many : factory.failures - waiting.length = 0 := ending.failures_eq
    exact ⟨by omega, by omega, messages reliable⟩

/-- A factory for one letter that fails at its first run. -/
def unsteadyLetter : Factory := ⟨1, "offline".toList, [], .symbol (.char 'a')⟩

/-- One program reads a deferred letter, and another one reads the same letter twice. -/
def letterReaders : Pool where
  held := {0}
  store := (Store.new .unlimited).addCell (.pending unsteadyLetter)
  programs :=
    [Request.on (.read [.char 'a']) ((Grammar.shared 0).program 1),
      Request.on (.parseAll [.char 'a', .char 'a'])
        ((Grammar.sequence (.shared 0) (.shared 0)).program 1)]

theorem factory_runs_letterReaders :
    ∃ uses last, Moves 0 letterReaders uses last ∧ uses.length = 3 ∧ factoryRuns 0 uses = 2 := by
  have moves : Moves 0 letterReaders _ _ := ((Moves.initial.turn 0).turn 1).turn 1
  have pending : letterReaders.store.cells[0]? = some (.pending unsteadyLetter) := rfl
  have reliable : unsteadyLetter.Reliable := fun _ _ => ⟨_, _, rfl⟩
  obtain ⟨waiting, served, _, _, _, _, counted⟩ :=
    factory_runs_until_success moves pending (show some (Cell.holding _) ≠ _ by simp)
  exact ⟨_, _, moves, rfl, (counted reliable).2.1⟩

end Pool

end TwoWayGrammar
