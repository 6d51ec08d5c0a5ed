import TwoWayGrammar.Proofs.Store.History

namespace TwoWayGrammar

namespace Store

/-- A usable cell holds a grammar or waits for its factory. -/
def Usable (store : Store) (address : Address) : Prop :=
  ∃ cell, store.cells[address]? = some cell ∧ cell ≠ .released ∧ cell ≠ .unfinished

/-- A store supports some cells when they and all that the store owns are usable. -/
structure Supports (store : Store) (cells : AddressSet) : Prop where
  usable : ∀ address ∈ store.owned cells, store.Usable address

/-- A sound store owns usable cells only. -/
abbrev Sound (store : Store) : Prop := store.Supports ∅

variable {store after : Store} {cells more held : AddressSet} {address owner : Address}
  {built : Built}

theorem usable_of_holding (holds : store.cells[address]? = some (.holding built)) :
    store.Usable address := ⟨_, holds, by simp, by simp⟩

theorem usable_of_pending {factory : Factory}
    (pending : store.cells[address]? = some (.pending factory)) : store.Usable address :=
  ⟨_, pending, by simp, by simp⟩

/-- Roots that the store owns add nothing to what it owns. -/
theorem owned_subset_owned (within : more ⊆ store.owned cells) :
    store.owned more ⊆ store.owned cells := by
  intro address member
  rcases mem_owned.mp member with root | owned
  · exact within address root
  · exact mem_owned.mpr (.inr owned)

theorem Supports.of_owned (supports : store.Supports cells) (within : more ⊆ store.owned cells) :
    store.Supports more where
  usable address member := supports.usable address (owned_subset_owned within address member)

theorem Supports.mono (supports : store.Supports cells) (within : more ⊆ cells) :
    store.Supports more :=
  supports.of_owned fun address member => mem_owned_of_held (within address member)

theorem Supports.sound (supports : store.Supports cells) : store.Sound :=
  supports.mono fun _ member => absurd member (AddressSet.not_mem_empty _)

theorem Supports.of_mem (supports : store.Supports cells) (member : address ∈ cells) :
    store.Usable address :=
  supports.usable address (mem_owned_of_held member)

/-- A usable cell is supported with the rest. -/
theorem Supports.with_usable (supports : store.Supports cells) (usable : store.Usable address) :
    store.Supports (cells ∪ {address}) where
  usable other member := by
    rcases mem_owned.mp member with root | owned
    · rcases AddressSet.mem_union.mp root with root | same
      · exact supports.of_mem root
      · exact AddressSet.mem_singleton.mp same ▸ usable
    · exact supports.usable other (mem_owned.mpr (.inr owned))

/-- What the table owns is supported with the rest. -/
theorem Supports.of_entry (supports : store.Supports cells) {name : Text}
    (found : store.find? name = some built) : store.Supports (cells ∪ built.owned) :=
  supports.of_owned fun _ member =>
    (AddressSet.mem_union.mp member).elim mem_owned_of_held (mem_owned_of_entry found)

/-- Neither the log nor the count of builds matters to what a store supports. -/
theorem Supports.of_eq (supports : store.Supports cells) (same : after.cells = store.cells)
    (table : after.table = store.table) : after.Supports cells where
  usable address member := by
    have owned : address ∈ store.owned cells := by
      rwa [owned, same, table] at member
    obtain ⟨cell, found, usable⟩ := supports.usable address owned
    exact ⟨cell, (congrArg (·[address]?) same).trans found, usable⟩

/-- A new entry that owns supported cells changes nothing about what is supported. -/
theorem Supports.define (supports : store.Supports cells) (name : Text)
    (within : built.owned ⊆ cells) : (store.define name built).Supports cells where
  usable address member := by
    refine supports.usable address ?_
    rcases mem_owned.mp member with root | ⟨entry, listed, owned⟩ | ⟨owner, body, holds, owned⟩
    · exact mem_owned_of_held root
    · rcases List.mem_cons.mp listed with rfl | kept
      · exact mem_owned_of_held (within address owned)
      · exact mem_owned.mpr (.inr (.inl ⟨entry, (List.mem_filter.mp kept).1, owned⟩))
    · exact mem_owned_of_cell holds owned

theorem Supports.erase (supports : store.Supports cells) (name : Text) :
    (store.erase name).Supports cells where
  usable address member := by
    refine supports.usable address ?_
    rcases mem_owned.mp member with root | ⟨entry, listed, owned⟩ | ⟨owner, body, holds, owned⟩
    · exact mem_owned_of_held root
    · exact mem_owned.mpr (.inr (.inl ⟨entry, (List.mem_filter.mp listed).1, owned⟩))
    · exact mem_owned_of_cell holds owned

/-- A new cell that is no grammar yet owns nothing. -/
theorem Supports.addCell (supports : store.Supports cells) {cell : Cell} (bare : cell.owned = ∅) :
    (store.addCell cell).Supports cells where
  usable address member := by
    have owned : address ∈ store.owned cells := by
      simpa [Store.owned, Store.addCell, bare] using member
    obtain ⟨old, found, usable⟩ := supports.usable address owned
    refine ⟨old, ?_, usable⟩
    rw [Store.addCell, List.getElem?_append_left (List.getElem?_eq_some_iff.mp found).1, found]

/-- A cell that changes in place owns afterwards what the new cell owns. -/
theorem owned_setCell_subset (store : Store) (address : Address) (cell : Cell) :
    (store.setCell address cell).owned cells ⊆ store.owned (cells ∪ cell.owned) := by
  intro other member
  rcases mem_owned.mp member with root | entry | ⟨owner, body, holds, owned⟩
  · exact mem_owned_of_held (AddressSet.mem_union.mpr (.inl root))
  · exact mem_owned.mpr (.inr (.inl entry))
  · by_cases same : owner = address
    · subst same
      have here : some cell = some (Cell.holding body) := by
        simp only [setCell, List.getElem?_set] at holds
        split at holds
        · split at holds
          · exact holds
          · simp at holds
        · contradiction
      obtain rfl := Option.some.inj here
      exact mem_owned_of_held (AddressSet.mem_union.mpr (.inr owned))
    · have kept : store.cells[owner]? = some (.holding body) := by
        simpa [setCell, Ne.symm same] using holds
      exact mem_owned_of_cell kept owned

/-- A cell may be filled with what owns supported cells. -/
theorem Supports.setCell_usable (supports : store.Supports cells) {cell : Cell}
    (within : cell.owned ⊆ cells) (live : cell ≠ .released) (complete : cell ≠ .unfinished) :
    (store.setCell address cell).Supports cells where
  usable other member := by
    have wider := owned_setCell_subset store address cell other member
    have owned : other ∈ store.owned cells := owned_subset_owned (fun address member =>
      mem_owned_of_held ((AddressSet.mem_union.mp member).elim id (within address))) other wider
    obtain ⟨old, found, usable⟩ := supports.usable other owned
    by_cases same : address = other
    · subst same
      refine ⟨cell, ?_, live, complete⟩
      simp [setCell, (List.getElem?_eq_some_iff.mp found).1]
    · refine ⟨old, ?_, usable⟩
      simpa [setCell, same] using found

/-- A cell that nothing may own yet can be released. -/
theorem Supports.setCell_released (supports : store.Supports cells)
    (unused : ¬ store.Usable address) : (store.setCell address .released).Supports cells where
  usable other member := by
    have wider := owned_setCell_subset store address .released other member
    rw [show Cell.owned .released = ∅ from rfl, AddressSet.union_empty] at wider
    obtain ⟨old, found, usable⟩ := supports.usable other wider
    have different : address ≠ other := by
      rintro rfl
      exact unused ⟨old, found, usable⟩
    refine ⟨old, ?_, usable⟩
    simpa [setCell, different] using found

/-- A collection keeps a store sound. What is still owned was kept by every sweep. -/
theorem Supports.collect (supports : store.Sound) (held : AddressSet) : (store.collect held).Sound where
  usable address member := by
    have still : address ∈ (store.collect held).owned held :=
      owned_subset_owned (fun other root => absurd root (AddressSet.not_mem_empty other)) address member
    have before := (shrinks_collect held store).owned_subset (table_collect held store) address member
    obtain ⟨cell, found, usable⟩ := supports.usable address before
    exact ⟨cell, (cells_collect_of_still_owned still).trans found, usable⟩

end Store

namespace Run

variable {α β : Type} {given more : AddressSet} {owned : α → AddressSet} {further : β → AddressSet}

/-- A run founds its result on the given cells when it keeps what is supported and supports what the
result owns as well. -/
def Founds (given : AddressSet) (owned : α → AddressSet) (run : Run α) : Prop :=
  ∀ (held : AddressSet) (store : Store) (wider : AddressSet), given ⊆ wider → store.Supports wider →
    (run held store).2.Supports wider ∧
      ∀ result, (run held store).1 = .returned result →
        (run held store).2.Supports (wider ∪ owned result)

theorem founds_pure {result : α} (within : owned result ⊆ given) :
    Founds given owned (pure result) := by
  intro held store wider covered supports
  refine ⟨supports, fun other same => supports.mono fun address member => ?_⟩
  obtain rfl := Outcome.returned.inj same
  exact (AddressSet.mem_union.mp member).elim id fun inside => covered _ (within _ inside)

theorem founds_stop (fault : Fault) : Founds given owned (stop fault) := by
  intro held store wider covered supports
  exact ⟨supports, fun result same => by simp [stop] at same⟩

theorem Founds.bind {first : Run α} {next : α → Run β} (before : Founds given owned first)
    (later : ∀ result, Founds (given ∪ owned result) further (next result)) :
    Founds given further (first >>= next) := by
  intro held store wider covered supports
  obtain ⟨kept, founded⟩ := before held store wider covered supports
  rcases found : first held store with ⟨outcome, middle⟩
  rw [found] at kept founded
  cases outcome with
  | returned result =>
    rw [bind_of_returned found]
    have inside : given ∪ owned result ⊆ wider ∪ owned result := fun address member =>
      AddressSet.mem_union.mpr ((AddressSet.mem_union.mp member).imp_left (covered address))
    obtain ⟨last, grown⟩ := later result held middle _ inside (founded result rfl)
    refine ⟨last.mono (AddressSet.subset_union_left _ _), fun value same => ?_⟩
    refine (grown value same).mono fun address member => ?_
    refine AddressSet.mem_union.mpr ((AddressSet.mem_union.mp member).imp_left fun old => ?_)
    exact AddressSet.subset_union_left _ _ address old
  | stopped fault =>
    rw [bind_of_stopped found]
    exact ⟨kept, fun value same => by simp at same⟩
  | diverged =>
    rw [bind_of_diverged found]
    exact ⟨kept, fun value same => by simp at same⟩

theorem Founds.wrap {combine : Grammar → Grammar} {keeps : ∀ body, (combine body).owned = body.owned}
    {run : Run Built} (founds : Founds given Built.owned run) :
    Founds given Built.owned (do return .wrap combine keeps (← run)) :=
  founds.bind fun _ => founds_pure (AddressSet.subset_union_right _ _)

/-- Two parts are founded one after the other, the second whatever else is supported. -/
theorem Founds.join {combine : Grammar → Grammar → Grammar}
    {keeps : ∀ head tail, (combine head tail).owned = head.owned ∪ tail.owned} {first second : Run Built}
    (head : Founds given Built.owned first) (tail : ∀ given, Founds given Built.owned second) :
    Founds given Built.owned (do return .join combine keeps (← first) (← second)) := by
  refine head.bind fun left => (tail _).bind fun right => founds_pure fun address member => ?_
  simp only [Built.join, AddressSet.mem_union] at member ⊢
  grind

theorem founds_family {arity : Nat} {runs : Fin arity → Run Built}
    (each : ∀ (part : Fin arity) (given : AddressSet), Founds given Built.owned (runs part)) :
    Founds given (fun parts => AddressSet.unions (List.ofFn fun part => (parts part).owned))
      (family arity runs) := by
  induction arity generalizing given with
  | zero => exact founds_pure fun address member => absurd member (by simp)
  | succ arity ih =>
    refine (each 0 given).bind fun first => (ih fun part => each part.succ).bind fun others => ?_
    refine founds_pure fun address member => ?_
    rw [List.ofFn_succ] at member
    rcases AddressSet.mem_union.mp member with head | tail
    · exact AddressSet.mem_union.mpr (.inl (AddressSet.mem_union.mpr (.inr head)))
    · exact AddressSet.mem_union.mpr (.inr tail)

end Run

namespace Definition

open Run

variable {given : AddressSet} {scope : Scope}

theorem founds_between {opening closing body : Definition}
    (opens : Founds given Built.owned (opening.build scope))
    (closes : ∀ given, Founds given Built.owned (closing.build scope))
    (founds : ∀ given, Founds given Built.owned (body.build scope)) :
    Founds given Built.owned ((between opening closing body).build scope) := by
  refine opens.bind fun left => (closes _).bind fun right => (founds _).bind fun middle =>
    founds_pure fun address member => ?_
  simp only [Built.join, AddressSet.mem_union] at member ⊢
  grind

theorem founds_dependent {arity : Nat} {determinant : Definition} {parts : Fin arity → Definition}
    {next : (Fin arity → Grammar) → Value → Grammar} {extract : Value → Value}
    (founds : Founds given Built.owned (determinant.build scope))
    (each : ∀ part given, Founds given Built.owned ((parts part).build scope)) :
    Founds given Built.owned ((dependent determinant parts next extract).build scope) := by
  refine founds.bind fun first => (founds_family each).bind fun others =>
    founds_pure fun address member => ?_
  simp only [Built.dependent, AddressSet.mem_union] at member ⊢
  grind

/-- A deferred definition owns its new cell, which waits for the factory. -/
theorem founds_deferred (failures : Nat) (message : Text) (body : Definition) :
    Founds given Built.owned ((deferred failures message body).build scope) := by
  intro held store wider _ supports
  have added : (store.addCell (.pending ⟨failures, message, scope, body⟩)).Supports wider :=
    supports.addCell rfl
  refine ⟨added, fun result same => ?_⟩
  obtain rfl := Outcome.returned.inj same
  exact added.with_usable (Store.usable_of_pending (by simp [Store.addCell]; rfl))

/-- A recursive definition that is not complete is owned by nothing, so it can be released when its body
stops. When its body returns, it is filled with what is supported. -/
theorem founds_recursive (exposure : Exposure) (name : Text) {body : Definition}
    (founds : ∀ scope, Founds given Built.owned (body.build scope)) :
    Founds given Built.owned ((recursive exposure name body).build scope) := by
  intro held store wider covered supports
  by_cases early : exposure = .premature
  · subst early
    rw [build_premature_apply]
    refine ⟨(supports.addCell rfl).setCell_released ?_, fun result same => by simp at same⟩
    rintro ⟨cell, found, _, complete⟩
    exact complete (by simpa [Store.addCell] using found.symm)
  · have opened : (store.opened exposure name).Supports wider := by
      unfold Store.opened
      split
      · exact (supports.addCell rfl).define name fun _ member =>
          absurd member (AddressSet.not_mem_empty _)
      · exact supports.addCell rfl
    have adds := body.build_adds ((name, store.cells.length) :: scope) (store.cells.length + 1)
    have empty := adds.unfinished exposure name held
    obtain ⟨kept, founded⟩ := founds ((name, store.cells.length) :: scope) held
      (store.opened exposure name) wider covered opened
    rw [build_recursive_apply early]
    rcases found : body.build ((name, store.cells.length) :: scope) held
      (store.opened exposure name) with ⟨outcome, after⟩
    rw [found] at empty kept founded
    cases outcome with
    | returned built =>
      have closed : (after.setCell store.cells.length (.holding built)).Supports
          (wider ∪ built.owned) :=
        (founded built rfl).setCell_usable (AddressSet.subset_union_right _ _) (by simp) (by simp)
      have narrow := closed.mono (AddressSet.subset_union_left wider built.owned)
      refine ⟨narrow, fun result same => ?_⟩
      obtain rfl := Outcome.returned.inj same
      have present : store.cells.length < after.cells.length :=
        (List.getElem?_eq_some_iff.mp empty).1
      have filled : (after.setCell store.cells.length (.holding built)).cells[store.cells.length]? =
          some (.holding built) := by
        simp [Store.setCell, present]
      exact narrow.with_usable (Store.usable_of_holding filled)
    | stopped fault =>
      refine ⟨kept.setCell_released ?_, fun result same => by simp at same⟩
      rintro ⟨cell, found, _, complete⟩
      exact complete (by simpa [empty] using found.symm)
    | diverged => exact ⟨kept, fun result same => by simp at same⟩

/-- A named grammar is supported with the table. -/
theorem founds_named (name : Text) : Founds given Built.owned ((named name).build scope) := by
  intro held store wider _ supports
  rw [build, bind_of_returned (show current held store = (.returned store, store) from rfl)]
  cases found : store.find? name with
  | none => exact founds_stop _ held store wider (AddressSet.Subset.refl _) supports
  | some built =>
    refine ⟨supports, fun result same => ?_⟩
    obtain rfl := Outcome.returned.inj same
    exact supports.of_entry found

/-- A handle owns nothing. -/
theorem founds_self (name : Text) : Founds given Built.owned ((self name).build scope) := by
  rw [build]
  cases scope.lookup name with
  | none => exact founds_stop _
  | some knot => exact founds_pure fun _ member => absurd member (AddressSet.not_mem_empty _)

/-- Building founds the built grammar. -/
theorem build_founds (definition : Definition) (scope : Scope) (given : AddressSet) :
    Founds given Built.owned (definition.build scope) := by
  induction definition generalizing scope given with
  | primitive base => exact founds_pure fun _ member => absurd member (AddressSet.not_mem_empty _)
  | adapt prism body ih => exact (ih scope given).wrap
  | sequence first second firstIh secondIh => exact (firstIh scope given).join (secondIh scope)
  | thenDiscard body mark bodyIh markIh => exact (bodyIh scope given).join (markIh scope)
  | discardThen mark body markIh bodyIh => exact (markIh scope given).join (bodyIh scope)
  | between opening closing body openingIh closingIh bodyIh =>
    exact founds_between (openingIh scope given) (closingIh scope) (bodyIh scope)
  | choice first second firstIh secondIh => exact (firstIh scope given).join (secondIh scope)
  | many body ih => exact (ih scope given).wrap
  | many1 body ih => exact (ih scope given).wrap
  | replicate count body capacity ih => exact (ih scope given).wrap
  | dependent determinant parts next extract determinantIh partsIh =>
    exact founds_dependent (determinantIh scope given) fun part => partsIh part scope
  | withDefault default body ih => exact (ih scope given).wrap
  | opt body ih => exact (ih scope given).wrap
  | traced name body ih => exact (ih scope given).wrap
  | deferred failures message body ih => exact founds_deferred failures message body
  | recursive exposure name body ih => exact founds_recursive exposure name fun scope => ih scope given
  | named name => exact founds_named name
  | self name => exact founds_self name

end Definition

namespace Store

variable {held : AddressSet} {store middle next : Store} {address : Address} {built : Built}

/-- A run of a factory keeps a store sound. -/
theorem Supports.force (supports : store.Sound) (address : Address) (factory : Factory)
    (held : AddressSet) : (Run.force address factory held store).2.Sound := by
  let counted : Store := { store with builds := store.builds + 1 }
  have counting : counted.Sound := supports.of_eq rfl rfl
  cases left : factory.failures with
  | succ failures =>
    rw [Run.force_of_failing left]
    exact counting.setCell_usable (fun _ member => member) (by simp) (by simp)
  | zero =>
    rw [Run.force_of_building left]
    obtain ⟨kept, founded⟩ := factory.body.build_founds factory.scope ∅ held counted ∅
      (AddressSet.Subset.refl _) counting
    rcases found : factory.body.build factory.scope held counted with ⟨outcome, after⟩
    rw [found] at kept founded
    cases outcome with
    | returned built =>
      rw [Run.bind_of_returned found]
      have filled : (after.setCell address (.holding built)).Supports (∅ ∪ built.owned) :=
        (founded built rfl).setCell_usable (AddressSet.subset_union_right _ _) (by simp) (by simp)
      exact filled.sound.collect held
    | stopped fault =>
      rw [Run.bind_of_stopped found]
      exact kept
    | diverged =>
      rw [Run.bind_of_diverged found]
      exact kept

theorem Change.sound (change : Change held store next) (sound : store.Sound) : next.Sound := by
  cases change with
  | log same => exact sound.of_eq rfl rfl
  | force within pending => exact sound.force _ _ _
  | collect within => exact sound.collect _

/-- A run of a factory leaves no cell unfinished. -/
theorem Complete.force (complete : store.Complete 0) (address : Address) (factory : Factory)
    (held : AddressSet) : (Run.force address factory held store).2.Complete 0 := by
  let counted : Store := { store with builds := store.builds + 1 }
  have counting : counted.Complete 0 := complete
  cases left : factory.failures with
  | succ failures =>
    rw [Run.force_of_failing left]
    exact counting.setCell (by simp) address
  | zero =>
    rw [Run.force_of_building left]
    have built := factory.body.build_completes factory.scope 0 held counted counting
    rcases found : factory.body.build factory.scope held counted with ⟨outcome, after⟩
    rw [found] at built
    cases outcome with
    | returned body =>
      rw [Run.bind_of_returned found]
      exact (built.setCell (by simp) address).shrinks (shrinks_collect held _)
    | stopped fault => rwa [Run.bind_of_stopped found]
    | diverged => rwa [Run.bind_of_diverged found]

theorem Change.complete (change : Change held store next) (complete : store.Complete 0) :
    next.Complete 0 := by
  cases change with
  | log same => exact complete
  | @force wider within address factory pending => exact complete.force address factory wider
  | @collect wider within => exact complete.shrinks (shrinks_collect wider store)

/-- A store follows another one when it is as sound and as complete, when settled cells are as they were
or released, and when what was finished and held is finished still. -/
structure Follows (held : AddressSet) (store next : Store) : Prop where
  sound : store.Sound → next.Sound
  complete : store.Complete 0 → next.Complete 0
  settled : ∀ {address : Address} {cell : Cell}, store.Settled address cell →
    next.Settled address cell ∨ next.Settled address .released
  held : ∀ {address : Address} {built : Built}, address ∈ held →
    store.cells[address]? = some (.holding built) → next.cells[address]? = some (.holding built)

theorem Follows.refl (held : AddressSet) (store : Store) : Follows held store store :=
  ⟨id, id, .inl, fun _ holds => holds⟩

theorem Follows.trans (before : Follows held store middle) (later : Follows held middle next) :
    Follows held store next where
  sound := later.sound ∘ before.sound
  complete := later.complete ∘ before.complete
  settled settled := by
    rcases before.settled settled with same | gone
    · exact later.settled same
    · exact (later.settled gone).elim .inr .inr
  held member holds := later.held member (before.held member holds)

/-- A later store follows the one before it. -/
theorem Later.follows (later : Later held store next) : Follows held store next where
  sound sound := by
    induction later with
    | refl => exact sound
    | tail _ change ih => exact change.sound ih
  complete complete := by
    induction later with
    | refl => exact complete
    | tail _ change ih => exact change.complete ih
  settled := later.settled
  held member holds :=
    (later.holding holds).resolve_right (keeps_of_held member (live_of_holding holds) next later)

/-- A store with the first cells as they were follows the one before it when it is as sound and as
complete. -/
theorem follows_of_cells (sound : store.Sound → next.Sound)
    (complete : store.Complete 0 → next.Complete 0)
    (same : ∀ address : Address, address < store.cells.length →
      next.cells[address]? = store.cells[address]?) : Follows held store next where
  sound := sound
  complete := complete
  settled {address _} settled :=
    .inl ⟨(same address (List.getElem?_eq_some_iff.mp settled.1).1).trans settled.1, settled.2⟩
  held {address _} _ holds :=
    (same address (List.getElem?_eq_some_iff.mp holds).1).trans holds

theorem Follows.holding (follows : Follows held store next)
    (holds : store.cells[address]? = some (.holding built)) :
    next.cells[address]? = some (.holding built) ∨ next.cells[address]? = some .released :=
  (follows.settled ⟨holds, by simp⟩).imp And.left And.left

theorem Follows.released (follows : Follows held store next)
    (gone : store.cells[address]? = some .released) : next.cells[address]? = some .released :=
  (follows.settled ⟨gone, by simp⟩).elim And.left And.left

/-- After a collection a finished cell that is still owned is there as before. A cell of a sound store that
the table or a cell owns is usable, and a root was there when the collection began. -/
theorem Follows.holding_collect {roots : AddressSet} (follows : Follows held store next)
    (sound : store.Sound) (holds : store.cells[address]? = some (.holding built))
    (rooted : address ∈ roots → next.cells[address]? = some (.holding built))
    (owned : address ∈ (next.collect roots).owned roots) :
    (next.collect roots).cells[address]? = some (.holding built) := by
  have kept := cells_collect_of_still_owned owned
  rcases follows.holding holds with same | released
  · rw [kept, same]
  · rcases mem_owned.mp owned with root | rest
    · rw [kept, rooted root]
    · exfalso
      have collected := (follows.sound sound).collect roots
      obtain ⟨cell, found, live, _⟩ := collected.usable address (mem_owned.mpr (.inr rest))
      rw [kept, released] at found
      exact live (Option.some.inj found).symm

/-- A collection releases a finished cell that nothing owns any more. -/
theorem Follows.releases_collect {roots : AddressSet} (follows : Follows held store next)
    (holds : store.cells[address]? = some (.holding built))
    (unowned : address ∉ (next.collect roots).owned roots) :
    (next.collect roots).cells[address]? = some .released := by
  rcases follows.holding holds with same | released
  · rcases shrinks_collect roots next address with kept | gone
    · exact absurd (owned_of_live_collect (kept.trans same) (by simp)) unowned
    · exact gone
  · exact (shrinks_collect roots next).released released

end Store

namespace Run

variable {α β : Type} {held : AddressSet}

/-- A run that goes on from a store leads to one that follows it. -/
def GoesOn (held : AddressSet) (run : Run α) : Prop :=
  ∀ wider, held ⊆ wider → ∀ store, Store.Follows held store (run wider store).2

theorem Evolves.goesOn {run : Run α} (evolves : Evolves held run) : GoesOn held run :=
  fun wider within store => (evolves wider within store).follows

theorem goesOn_pure (result : α) : GoesOn held (pure result : Run α) := (evolves_pure result).goesOn

theorem goesOn_stop (fault : Fault) : GoesOn held (stop fault : Run α) := (evolves_stop fault).goesOn

theorem GoesOn.bind {first : Run α} {next : α → Run β} (before : GoesOn held first)
    (later : ∀ result, GoesOn held (next result)) : GoesOn held (first >>= next) :=
  fun wider within store => bind_leads (Store.Follows held) .trans (before wider within store)
    fun result middle => later result wider within middle

theorem GoesOn.attempt {run : Run α} (goesOn : GoesOn held run) : GoesOn held (Run.attempt run) := by
  intro wider within store
  rw [attempt_store]
  exact goesOn wider within store

theorem GoesOn.holding (cells : AddressSet) {run : Run α} (goesOn : GoesOn held run) :
    GoesOn held (Run.holding cells run) := by
  intro wider within store
  have reached := goesOn (wider ∪ cells)
    (AddressSet.Subset.trans within (AddressSet.subset_union_left wider cells)) store
  exact reached.trans
    (Store.later_of_settled within (holding_apply cells run wider store).2).follows

end Run

end TwoWayGrammar
