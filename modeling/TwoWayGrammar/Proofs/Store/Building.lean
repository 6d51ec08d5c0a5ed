import TwoWayGrammar.Definition.Build
import TwoWayGrammar.Proofs.Run.Inversion
import TwoWayGrammar.Proofs.Store.Collection

namespace TwoWayGrammar

namespace Store

/-- The second store keeps the first cells, up to the given number, and the log and the counter. -/
structure Frame (size : Nat) (store after : Store) : Prop where
  cells : ∀ address : Address, address < size → after.cells[address]? = store.cells[address]?
  length : store.cells.length ≤ after.cells.length
  log : after.log = store.log
  builds : after.builds = store.builds

theorem Frame.refl (size : Nat) (store : Store) : Frame size store store :=
  ⟨fun _ _ => rfl, Nat.le_refl _, rfl, rfl⟩

theorem Frame.trans {size : Nat} {first second third : Store} (before : Frame size first second)
    (later : Frame size second third) : Frame size first third where
  cells address inside := (later.cells address inside).trans (before.cells address inside)
  length := Nat.le_trans before.length later.length
  log := later.log.trans before.log
  builds := later.builds.trans before.builds

/-- A frame of more cells is a frame of fewer. -/
theorem Frame.mono {size larger : Nat} {store after : Store} (frame : Frame larger store after)
    (within : size ≤ larger) : Frame size store after :=
  { frame with
    cells := fun address inside => frame.cells address (Nat.lt_of_lt_of_le inside within) }

theorem frame_define (size : Nat) (store : Store) (name : Text) (built : Built) :
    Frame size store (store.define name built) :=
  ⟨fun _ _ => rfl, Nat.le_refl _, rfl, rfl⟩

theorem frame_addCell {size : Nat} {store : Store} (within : size ≤ store.cells.length)
    (cell : Cell) : Frame size store (store.addCell cell) where
  cells address inside := by
    have present : address < store.cells.length := Nat.lt_of_lt_of_le inside within
    simp [addCell, List.getElem?_append_left present]
  length := by simp [addCell]
  log := rfl
  builds := rfl

theorem frame_setCell {size address : Nat} (store : Store) (beyond : size ≤ address) (cell : Cell) :
    Frame size store (store.setCell address cell) where
  cells other inside := by
    have different : address ≠ other := Nat.ne_of_gt (Nat.lt_of_lt_of_le inside beyond)
    simp [setCell, different]
  length := by simp [setCell]
  log := rfl
  builds := rfl

end Store

namespace Run

variable {α β : Type} {size : Nat}

/-- A property of runs that passes to composed runs. -/
structure Passes (property : ∀ {α : Type}, Run α → Prop) : Prop where
  pure : ∀ {α : Type} (result : α), property (pure result)
  stop : ∀ {α : Type} (fault : Fault), property (stop fault : Run α)
  current : property current
  bind : ∀ {α β : Type} {first : Run α} {next : α → Run β}, property first →
    (∀ result, property (next result)) → property (first >>= next)

theorem Passes.orStop {property : ∀ {α : Type}, Run α → Prop} (passes : Passes property)
    (result : Option α) (fault : Fault) : property (Run.orStop result fault) := by
  cases result with
  | none => exact passes.stop fault
  | some value => exact passes.pure value

theorem Passes.family {property : ∀ {α : Type}, Run α → Prop} (passes : Passes property) {arity : Nat}
    {runs : Fin arity → Run α} (each : ∀ index, property (runs index)) :
    property (Run.family arity runs) := by
  induction arity with
  | zero => exact passes.pure _
  | succ arity ih =>
    exact passes.bind (each 0) fun _ => passes.bind (ih fun index => each index.succ) fun _ =>
      passes.pure _

/-- A run that only adds to the store ends and keeps the first cells, up to the given number. -/
def Adds (size : Nat) (run : Run α) : Prop :=
  ∀ held store, size ≤ store.cells.length →
    (run held store).1 ≠ .diverged ∧ Store.Frame size store (run held store).2

theorem adds_pure (result : α) : Adds size (pure result : Run α) := fun _ store _ =>
  ⟨by simp, .refl size store⟩

theorem adds_stop (fault : Fault) : Adds size (stop fault : Run α) := fun _ store _ =>
  ⟨by simp [stop], .refl size store⟩

theorem adds_current : Adds size current := fun _ store _ =>
  ⟨by simp [current], .refl size store⟩

theorem adds_modify {change : Store → Store}
    (frame : ∀ store, Store.Frame size store (change store)) : Adds size (modify change) :=
  fun _ store _ => ⟨by simp [modify], frame store⟩

theorem Adds.bind {first : Run α} {next : α → Run β} (before : Adds size first)
    (later : ∀ result, Adds size (next result)) : Adds size (first >>= next) := by
  intro held store within
  obtain ⟨ends, frame⟩ := before held store within
  rcases found : first held store with ⟨outcome, after⟩
  rw [found] at ends frame
  cases outcome with
  | returned result =>
    rw [bind_of_returned found]
    obtain ⟨laterEnds, laterFrame⟩ := later result held after (Nat.le_trans within frame.length)
    exact ⟨laterEnds, frame.trans laterFrame⟩
  | stopped fault =>
    rw [bind_of_stopped found]
    exact ⟨by simp, frame⟩
  | diverged => exact absurd rfl ends

theorem adds_passes (size : Nat) : Passes fun run => Adds size run :=
  ⟨adds_pure, adds_stop, adds_current, Adds.bind⟩

theorem newCell_apply (cell : Cell) (held : AddressSet) (store : Store) :
    newCell cell held store = (.returned store.cells.length, store.addCell cell) := rfl

/-- What follows a new cell may use its address, which is beyond the first cells. -/
theorem adds_newCell_bind {cell : Cell} {next : Address → Run β}
    (later : ∀ knot, size ≤ knot → Adds size (next knot)) :
    Adds size (newCell cell >>= next) := by
  intro held store within
  rw [bind_of_returned (newCell_apply cell held store)]
  have frame := Store.frame_addCell within cell
  obtain ⟨ends, laterFrame⟩ := later store.cells.length within held _ (Nat.le_trans within frame.length)
  exact ⟨ends, frame.trans laterFrame⟩

theorem adds_offer (address : Address) : Adds size (offer address) := by
  refine adds_current.bind fun store => ?_
  split
  · exact adds_pure _
  · exact adds_stop _

theorem Adds.cleaningUp {cleanup : Store → Store} {run : Run α} (adds : Adds size run)
    (frame : ∀ store, Store.Frame size store (cleanup store)) :
    Adds size (Run.cleaningUp cleanup run) := by
  intro held store within
  obtain ⟨ends, kept⟩ := adds held store within
  unfold Run.cleaningUp
  split
  · rename_i fault after found
    rw [found] at kept
    exact ⟨by simp, kept.trans (frame after)⟩
  · exact ⟨ends, kept⟩

end Run

/-- The store in which the body of a recursive definition is built has one cell more, and the handle is in
the table if it is published. -/
def Store.opened (store : Store) (exposure : Exposure) (name : Text) : Store :=
  if exposure = .published then
    (store.addCell .unfinished).define name (.handle store.cells.length)
  else store.addCell .unfinished

theorem Store.cells_opened (store : Store) (exposure : Exposure) (name : Text) :
    (store.opened exposure name).cells = store.cells ++ [.unfinished] := by
  unfold opened
  split <;> rfl

/-- A published definition takes the place of what had its name. -/
theorem Store.find?_opened (store : Store) {exposure : Exposure} {name other : Text}
    (different : exposure = .published → other ≠ name) :
    (store.opened exposure name).find? other = store.find? other := by
  unfold opened
  split
  · rename_i published
    exact find?_define_of_ne _ _ (different published)
  · rfl

theorem Store.frame_opened (store : Store) (exposure : Exposure) (name : Text) :
    Frame store.cells.length store (store.opened exposure name) := by
  have added := frame_addCell (Nat.le_refl store.cells.length) .unfinished
  unfold opened
  split
  · exact added.trans (frame_define _ _ name _)
  · exact added

namespace Store.Frame

variable {store after : Store} {exposure : Exposure} {name : Text}

/-- Whatever is added to the opened store, the cell of the recursive definition stays unfinished. -/
theorem unfinished (frame : Frame (store.cells.length + 1) (store.opened exposure name) after) :
    after.cells[store.cells.length]? = some .unfinished := by
  rw [frame.cells _ (Nat.lt_succ_self _), cells_opened]
  simp

/-- When its own cell is closed, a recursive definition has only added to the store. -/
theorem close (frame : Frame (store.cells.length + 1) (store.opened exposure name) after)
    (cell : Cell) : Frame store.cells.length store (after.setCell store.cells.length cell) :=
  ((store.frame_opened exposure name).trans (frame.mono (Nat.le_succ _))).trans
    (frame_setCell after (Nat.le_refl _) cell)

end Store.Frame

/-- No run that only adds to the opened store finishes the cell of the recursive definition. -/
theorem Run.Adds.unfinished {α : Type} {store : Store} {run : Run α}
    (adds : Adds (store.cells.length + 1) run) (exposure : Exposure) (name : Text)
    (held : AddressSet) :
    (run held (store.opened exposure name)).2.cells[store.cells.length]? = some .unfinished :=
  (adds held (store.opened exposure name) (by simp [Store.cells_opened])).2.unfinished

namespace Definition

open Run

/-- A recursive definition gets its cell first. The handle may be published or used before the body
is built, and the cell holds the body from then on. -/
theorem build_recursive (exposure : Exposure) (name : Text) (body : Definition) (scope : Scope) :
    (recursive exposure name body).build scope =
      newCell .unfinished >>= fun knot =>
        (if exposure = .published then modify fun store => store.define name (.handle knot)
          else pure ()) >>= fun _ =>
        cleaningUp (fun store => store.setCell knot .released)
          ((if exposure = .premature then offer knot >>= fun _ => pure () else pure ()) >>= fun _ =>
            body.build ((name, knot) :: scope) >>= fun built =>
              modify fun store => store.setCell knot (.holding built)) >>= fun _ =>
        pure (.shared knot) := by
  cases exposure with
  | hidden => rfl
  | published => rfl
  | premature => simp only [build, reduceCtorEq, if_true, if_false, bind_assoc, pure_bind]

/-- A recursive definition is its body, built in the opened store, and a change of its own cell. -/
theorem build_recursive_apply {exposure : Exposure} (late : exposure ≠ .premature) (name : Text)
    (body : Definition) (scope : Scope) (held : AddressSet) (store : Store) :
    (recursive exposure name body).build scope held store =
      match body.build ((name, store.cells.length) :: scope) held (store.opened exposure name) with
      | (.returned built, after) =>
        (.returned (.shared store.cells.length), after.setCell store.cells.length (.holding built))
      | (.stopped fault, after) => (.stopped fault, after.setCell store.cells.length .released)
      | (.diverged, after) => (.diverged, after) := by
  have opened : (if exposure = .published then
        Run.modify fun before => before.define name (.handle store.cells.length) else pure ())
        held (store.addCell .unfinished) = (.returned (), store.opened exposure name) := by
    unfold Store.opened
    split <;> rfl
  rw [build_recursive, bind_of_returned (newCell_apply .unfinished held store), bind_of_returned opened]
  simp only [if_neg late, pure_bind, bind_apply, cleaningUp]
  rcases body.build ((name, store.cells.length) :: scope) held (store.opened exposure name)
    with ⟨_ | _ | _, after⟩ <;> rfl

/-- A recursive definition that runs its own handle too early stops at once and is released. -/
theorem build_premature_apply (name : Text) (body : Definition) (scope : Scope) (held : AddressSet)
    (store : Store) :
    (recursive .premature name body).build scope held store =
      (.stopped (.grammar .unfinished),
        (store.addCell .unfinished).setCell store.cells.length .released) := by
  have offered : offer store.cells.length held (store.addCell .unfinished) =
      (.stopped (.grammar .unfinished), store.addCell .unfinished) := by
    rw [offer, bind_of_returned (show current held _ = (.returned _, _) from rfl),
      Store.offer_addCell]
    rfl
  rw [build_recursive, bind_of_returned (newCell_apply .unfinished held store)]
  simp only [reduceCtorEq, if_true, if_false, pure_bind, bind_assoc]
  refine bind_of_stopped ?_
  unfold cleaningUp
  rw [bind_of_stopped offered]

/-- A property that passes to composed runs holds for every build, when it holds for the ones that add a
cell. -/
theorem build_of_passes {property : ∀ {α : Type}, Run α → Prop} (passes : Passes property)
    (pending : ∀ factory, property (newCell (.pending factory)))
    (knots : ∀ exposure name body, (∀ scope, property (body.build scope)) →
      ∀ scope, property ((recursive exposure name body).build scope))
    (definition : Definition) (scope : Scope) : property (definition.build scope) := by
  induction definition generalizing scope with
  | primitive base => exact passes.pure _
  | adapt prism body ih => exact passes.bind (ih scope) fun _ => passes.pure _
  | sequence first second firstIh secondIh =>
    exact passes.bind (firstIh scope) fun _ => passes.bind (secondIh scope) fun _ => passes.pure _
  | thenDiscard body mark bodyIh markIh =>
    exact passes.bind (bodyIh scope) fun _ => passes.bind (markIh scope) fun _ => passes.pure _
  | discardThen mark body markIh bodyIh =>
    exact passes.bind (markIh scope) fun _ => passes.bind (bodyIh scope) fun _ => passes.pure _
  | between opening closing body openingIh closingIh bodyIh =>
    exact passes.bind (openingIh scope) fun _ => passes.bind (closingIh scope) fun _ =>
      passes.bind (bodyIh scope) fun _ => passes.pure _
  | choice first second firstIh secondIh =>
    exact passes.bind (firstIh scope) fun _ => passes.bind (secondIh scope) fun _ => passes.pure _
  | many body ih => exact passes.bind (ih scope) fun _ => passes.pure _
  | many1 body ih => exact passes.bind (ih scope) fun _ => passes.pure _
  | replicate count body capacity ih => exact passes.bind (ih scope) fun _ => passes.pure _
  | dependent determinant parts next extract determinantIh partsIh =>
    exact passes.bind (determinantIh scope) fun _ =>
      passes.bind (passes.family fun part => partsIh part scope) fun _ => passes.pure _
  | withDefault default body ih => exact passes.bind (ih scope) fun _ => passes.pure _
  | opt body ih => exact passes.bind (ih scope) fun _ => passes.pure _
  | traced name body ih => exact passes.bind (ih scope) fun _ => passes.pure _
  | deferred failures message body ih => exact passes.bind (pending _) fun _ => passes.pure _
  | recursive exposure name body ih => exact knots exposure name body ih scope
  | named name => exact passes.bind passes.current fun _ => passes.orStop _ _
  | self name => exact passes.bind (passes.orStop _ _) fun _ => passes.pure _

/-- Building ends and only adds to the store. -/
theorem build_adds (definition : Definition) (scope : Scope) (size : Nat) :
    Adds size (definition.build scope) := by
  refine build_of_passes (adds_passes size) (fun factory => ?_) (fun exposure name body ih scope => ?_)
    definition scope
  · intro held store within
    rw [newCell_apply]
    exact ⟨by simp, Store.frame_addCell within _⟩
  · rw [build_recursive]
    refine adds_newCell_bind fun knot beyond => ?_
    have set (cell : Cell) (store : Store) : Store.Frame size store (store.setCell knot cell) :=
      Store.frame_setCell store beyond cell
    refine Adds.bind ?_ fun _ => Adds.bind (Adds.cleaningUp ?_ (set .released)) fun _ => adds_pure _
    · split
      · exact adds_modify fun store => Store.frame_define size store name _
      · exact adds_pure _
    · refine Adds.bind ?_ fun _ => (ih _).bind fun built => adds_modify (set _)
      split
      · exact (adds_offer knot).bind fun _ => adds_pure _
      · exact adds_pure _

end Definition

/-- A store is complete from a cell on when none of the cells from there on is unfinished. -/
def Store.Complete (size : Nat) (store : Store) : Prop :=
  ∀ address : Address, size ≤ address → store.cells[address]? ≠ some .unfinished

namespace Store

variable {store after : Store} {size : Nat}

theorem Complete.addCell (complete : store.Complete size) {cell : Cell} (finished : cell ≠ .unfinished) :
    (store.addCell cell).Complete size := by
  intro address beyond
  rcases Nat.lt_trichotomy address store.cells.length with inside | rfl | outside
  · simpa [Store.addCell, List.getElem?_append_left inside] using complete address beyond
  · simpa [Store.addCell] using finished
  · have missing : (store.addCell cell).cells[address]? = none := by
      simp only [Store.addCell, List.getElem?_eq_none_iff, List.length_append, List.length_singleton]
      exact outside
    simp [missing]

theorem Complete.setCell (complete : store.Complete size) {cell : Cell} (finished : cell ≠ .unfinished)
    (address : Address) : (store.setCell address cell).Complete size := by
  intro other beyond
  by_cases same : address = other
  · subst same
    simp only [Store.setCell, List.getElem?_set]
    grind
  · simpa [Store.setCell, same] using complete other beyond

theorem Complete.shrinks (complete : store.Complete size) (shrinks : store.Shrinks after) :
    after.Complete size := by
  intro address beyond
  rcases shrinks address with same | released
  · rw [same]
    exact complete address beyond
  · simp [released]

/-- The opened store is complete behind its own new cell. When that cell is closed, the store is complete
from where it was before. -/
theorem complete_opened (store : Store) (exposure : Exposure) (name : Text) :
    (store.opened exposure name).Complete (store.cells.length + 1) := by
  intro address beyond
  have missing : (store.opened exposure name).cells[address]? = none := by
    rw [cells_opened]
    simpa using beyond
  simp [missing]

theorem Complete.close (complete : store.Complete size) {exposure : Exposure} {name : Text}
    (frame : Frame (store.cells.length + 1) (store.opened exposure name) after)
    (inner : after.Complete (store.cells.length + 1)) {cell : Cell} (finished : cell ≠ .unfinished) :
    (after.setCell store.cells.length cell).Complete size := by
  have closed := inner.setCell finished store.cells.length
  intro address beyond
  rcases Nat.lt_trichotomy address store.cells.length with inside | rfl | outside
  · rw [(frame.close cell).cells address inside]
    exact complete address beyond
  · simp only [Store.setCell, List.getElem?_set]
    grind
  · exact closed address outside

end Store

namespace Run

variable {α β : Type} {size : Nat}

/-- A run that completes leaves a complete store complete. -/
def Completes (size : Nat) (run : Run α) : Prop :=
  ∀ held store, Store.Complete size store → (run held store).2.Complete size

theorem completes_passes : Passes fun run => ∀ size, Completes size run where
  pure _ _ := fun _ _ complete => complete
  stop _ _ := fun _ _ complete => complete
  current _ := fun _ _ complete => complete
  bind before later size := fun held store =>
    bind_leads (fun before after => before.Complete size → after.Complete size)
      (fun earlier further => further ∘ earlier) (before size held store)
      fun result middle => later result size held middle

end Run

/-- A build leaves no new cell unfinished. -/
theorem Definition.build_completes (definition : Definition) (scope : Scope) (size : Nat) :
    Run.Completes size (definition.build scope) := by
  refine build_of_passes Run.completes_passes (fun factory size => ?_)
    (fun exposure name body ih scope size => ?_) definition scope size
  · exact fun _ _ complete => complete.addCell (by simp)
  · intro held store complete
    by_cases early : exposure = .premature
    · subst early
      rw [build_premature_apply]
      exact complete.close (.refl _ (store.opened .hidden name))
        (store.complete_opened .hidden name) (by simp)
    · have adds := body.build_adds ((name, store.cells.length) :: scope) (store.cells.length + 1)
      obtain ⟨ends, frame⟩ := adds held (store.opened exposure name) (by simp [Store.cells_opened])
      have inner := ih ((name, store.cells.length) :: scope) (store.cells.length + 1) held
        (store.opened exposure name) (store.complete_opened exposure name)
      rw [build_recursive_apply early]
      rcases found : body.build ((name, store.cells.length) :: scope) held
        (store.opened exposure name) with ⟨outcome, after⟩
      rw [found] at ends frame inner
      cases outcome with
      | returned built => exact complete.close frame inner (by simp)
      | stopped fault => exact complete.close frame inner (by simp)
      | diverged => exact absurd rfl ends

/-- What the runs of a factory leave in its cell. It waits for the same body, or it holds what the body
gave. -/
inductive Factory.Fills (factory : Factory) : Cell → Prop
  | pending (failures : Nat) : Fills factory (.pending { factory with failures })
  | holding {built : Built} {held : AddressSet} {store after : Store}
      (returned : factory.body.build factory.scope held store = (.returned built, after)) :
      Fills factory (.holding built)

theorem Factory.Fills.ne_released {factory : Factory} {cell : Cell} (fills : factory.Fills cell) :
    cell ≠ .released := by
  cases fills <;> simp

/-- Failures do not change what a factory leaves. -/
theorem Factory.Fills.again {factory left : Factory} {cell : Cell}
    (waits : factory.Fills (.pending left)) (fills : left.Fills cell) : factory.Fills cell := by
  cases waits with
  | pending failures =>
    cases fills with
    | pending fewer => exact .pending fewer
    | holding returned => exact .holding returned

namespace Run

variable {store : Store} {held : AddressSet} {address : Address} {factory : Factory}

theorem resolve_of_holding {built : Built}
    (holds : store.cells[address]? = some (.holding built)) :
    resolve address held store = (.returned built.grammar, store) := by
  have offered : offer address held store = (.returned (.inl built.grammar), store) := by
    rw [offer, bind_of_returned (show current held store = (.returned store, store) from rfl)]
    simp [Store.offer, holds, Cell.offer]
  rw [resolve, bind_of_returned offered]
  rfl

theorem resolve_of_pending (pending : store.cells[address]? = some (.pending factory)) :
    resolve address held store = force address factory held store := by
  have offered : offer address held store = (.returned (.inr factory), store) := by
    rw [offer, bind_of_returned (show current held store = (.returned store, store) from rfl)]
    simp [Store.offer, pending, Cell.offer]
  rw [resolve, bind_of_returned offered]

theorem resolve_of_error {fault : GrammarFault} (missing : store.offer address = .error fault) :
    resolve address held store = (.stopped (.grammar fault), store) := by
  have offered : offer address held store = (.stopped (.grammar fault), store) := by
    rw [offer, bind_of_returned (show current held store = (.returned store, store) from rfl),
      missing]
    rfl
  rw [resolve, bind_of_stopped offered]

/-- Using a cell gives its grammar, runs its factory, or stops without a change. -/
theorem resolve_cases (address : Address) (held : AddressSet) (store : Store) :
    (∃ built, store.cells[address]? = some (.holding built) ∧
      resolve address held store = (.returned built.grammar, store)) ∨
    (∃ factory, store.cells[address]? = some (.pending factory) ∧
      resolve address held store = force address factory held store) ∨
    ∃ fault, resolve address held store = (.stopped fault, store) := by
  rcases found : store.cells[address]? with _ | cell
  · exact .inr (.inr ⟨_, resolve_of_error (by simp [Store.offer, found, Cell.offer]; rfl)⟩)
  · cases cell with
    | unfinished =>
      exact .inr (.inr ⟨_, resolve_of_error (by simp [Store.offer, found, Cell.offer]; rfl)⟩)
    | holding built => exact .inl ⟨built, rfl, resolve_of_holding found⟩
    | pending factory => exact .inr (.inl ⟨factory, rfl, resolve_of_pending found⟩)
    | released =>
      exact .inr (.inr ⟨_, resolve_of_error (by simp [Store.offer, found, Cell.offer]; rfl)⟩)

/-- A factory with failures left uses one of them up. -/
theorem force_of_failing {failures : Nat} (failing : factory.failures = failures + 1)
    (held : AddressSet) :
    force address factory held store =
      (.stopped (.grammar (.factory factory.message)),
        { store with builds := store.builds + 1 }.setCell address
          (.pending { factory with failures })) := by
  rw [force, bind_of_returned rfl, failing]
  rfl

theorem force_of_building (building : factory.failures = 0) (held : AddressSet) :
    force address factory held store =
      (do
        let built ← factory.body.build factory.scope
        modify fun store => store.setCell address (.holding built)
        settle
        return built.grammar : Run Grammar) held { store with builds := store.builds + 1 } := by
  rw [force, bind_of_returned rfl, building]

/-- A factory run leaves the other cells and the log alone. It stops, or it fills the cell for good
and collects. -/
theorem force_cases (pending : store.cells[address]? = some (.pending factory))
    (held : AddressSet) :
    ∃ (middle : Store) (cell : Cell), (∀ other : Address, other < store.cells.length →
        other ≠ address → middle.cells[other]? = store.cells[other]?) ∧ middle.log = store.log ∧
      middle.cells[address]? = some cell ∧ factory.Fills cell ∧
      ((∃ fault, force address factory held store = (.stopped fault, middle)) ∨
        ∃ built, cell = .holding built ∧
          force address factory held store = (.returned built.grammar, middle.collect held)) := by
  let counted : Store := { store with builds := store.builds + 1 }
  have present : address < store.cells.length := (List.getElem?_eq_some_iff.mp pending).1
  cases left : factory.failures with
  | succ failures =>
    refine ⟨counted.setCell address (.pending { factory with failures }), _, ?_, rfl, ?_,
      .pending failures, .inl ⟨_, force_of_failing left held⟩⟩
    · intro other inside different
      simp [counted, Store.setCell, Ne.symm different]
    · simp [counted, Store.setCell, present]
  | zero =>
    rw [force_of_building left held]
    obtain ⟨ends, frame⟩ := factory.body.build_adds factory.scope store.cells.length held counted
      (Nat.le_refl _)
    rcases found : factory.body.build factory.scope held counted with ⟨outcome, after⟩
    rw [found] at ends frame
    cases outcome with
    | returned built =>
      refine ⟨after.setCell address (.holding built), _, ?_, frame.log, ?_, .holding found,
        .inr ⟨built, rfl, bind_of_returned found⟩⟩
      · intro other inside different
        simpa [Store.setCell, Ne.symm different] using frame.cells other inside
      · simp [Store.setCell, Nat.lt_of_lt_of_le present frame.length]
    | stopped fault =>
      exact ⟨after, _, fun other inside _ => frame.cells other inside, frame.log,
        (frame.cells address present).trans pending, .pending factory.failures,
        .inl ⟨fault, bind_of_stopped found⟩⟩
    | diverged => exact absurd rfl ends

end Run

end TwoWayGrammar
