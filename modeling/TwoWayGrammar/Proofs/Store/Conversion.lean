import TwoWayGrammar.Proofs.Store.Building

namespace TwoWayGrammar

/-- The result of an outcome, if there is one, can be changed. -/
def Outcome.map {α β : Type} (change : α → β) : Outcome α → Outcome β
  | .returned result => .returned (change result)
  | .stopped fault => .stopped fault
  | .diverged => .diverged

@[simp] theorem Outcome.map_id {α : Type} (outcome : Outcome α) : outcome.map id = outcome := by
  cases outcome <;> rfl

/-- A conversion changes grammars but neither their references nor the cells that they own, and converts the
definitions that it allows. -/
structure Conversion where
  grammar : Grammar → Grammar
  shared : ∀ cell, grammar (.shared cell) = .shared cell
  handle : ∀ cell, grammar (.handle cell) = .handle cell
  owned : ∀ body, (grammar body).owned = body.owned
  definition : Definition → Definition
  allows : Definition → Prop

namespace Conversion

variable (conversion : Conversion)

/-- The converted grammar owns the same cells. -/
def built (body : Built) : Built :=
  ⟨conversion.grammar body.grammar, body.owned, by rw [conversion.owned, body.owned_eq]⟩

/-- A factory fails as often as before and builds the converted definition. -/
def factory (factory : Factory) : Factory :=
  { factory with body := conversion.definition factory.body }

/-- A cell stays of its kind. -/
def cell : Cell → Cell
  | .unfinished => .unfinished
  | .holding body => .holding (conversion.built body)
  | .pending factory => .pending (conversion.factory factory)
  | .released => .released

/-- Every entry and every cell of a store is converted. The log is exchanged. -/
def store (log : TraceLog) (store : Store) : Store where
  table := store.table.map fun entry => (entry.1, conversion.built entry.2)
  cells := store.cells.map conversion.cell
  builds := store.builds
  log := log

/-- A store is allowed when all definitions that are still to be built are. -/
def Allows (store : Store) : Prop :=
  ∀ factory, Cell.pending factory ∈ store.cells → conversion.allows factory.body

variable {conversion}

theorem built_eq {body other : Built} (same : conversion.grammar body.grammar = other.grammar) :
    conversion.built body = other := by
  obtain ⟨grammar, owned, owns⟩ := other
  obtain rfl : conversion.grammar body.grammar = grammar := same
  obtain rfl : body.owned = owned := by rw [owns, conversion.owned, body.owned_eq]
  rfl

theorem built_handle (knot : Address) : conversion.built (.handle knot) = .handle knot :=
  built_eq (show conversion.grammar (.handle knot) = (Built.handle knot).grammar from
    conversion.handle knot)

theorem built_shared (knot : Address) : conversion.built (.shared knot) = .shared knot :=
  built_eq (show conversion.grammar (.shared knot) = (Built.shared knot).grammar from
    conversion.shared knot)

theorem find?_store (log : TraceLog) (store : Store) (name : Text) :
    (conversion.store log store).find? name = (store.find? name).map conversion.built := by
  simp only [Store.find?, Conversion.store]
  induction store.table with
  | nil => rfl
  | cons entry entries ih =>
    obtain ⟨key, built⟩ := entry
    rw [List.map_cons, List.lookup_cons, List.lookup_cons]
    cases name == key
    · exact ih
    · rfl

theorem store_define (log : TraceLog) (store : Store) (name : Text) (body : Built) :
    conversion.store log (store.define name body) =
      (conversion.store log store).define name (conversion.built body) := by
  simp only [Store.define, Store.erase, Conversion.store, List.map_cons, List.filter_map]
  rfl

theorem store_addCell (log : TraceLog) (store : Store) (cell : Cell) :
    conversion.store log (store.addCell cell) =
      (conversion.store log store).addCell (conversion.cell cell) := by
  simp [Store.addCell, Conversion.store]

theorem store_setCell (log : TraceLog) (store : Store) (address : Address) (cell : Cell) :
    conversion.store log (store.setCell address cell) =
      (conversion.store log store).setCell address (conversion.cell cell) := by
  simp [Store.setCell, Conversion.store]

/-- A converted cell offers what the cell offers, converted. -/
theorem offer_store (log : TraceLog) (store : Store) (address : Address) :
    (conversion.store log store).offer address =
      (store.offer address).map (Sum.map conversion.grammar conversion.factory) := by
  simp only [Store.offer, Conversion.store, List.getElem?_map]
  rcases store.cells[address]? with _ | _ | _ | _ | _ <;> rfl

theorem owned_cell (cell : Cell) : (conversion.cell cell).owned = cell.owned := by
  cases cell <;> rfl

theorem owned_store (log : TraceLog) (store : Store) (held : AddressSet) :
    (conversion.store log store).owned held = store.owned held := by
  have cells : Cell.owned ∘ conversion.cell = Cell.owned := funext owned_cell
  simp only [Store.owned, Conversion.store, List.map_map, cells]
  rfl

theorem store_sweep (log : TraceLog) (held : AddressSet) (store : Store) :
    conversion.store log (store.sweep held) = (conversion.store log store).sweep held := by
  simp only [Store.sweep, owned_store]
  simp only [Conversion.store, Store.mk.injEq, true_and, and_true]
  refine List.ext_getElem? fun address => ?_
  simp only [List.getElem?_map, List.getElem?_mapIdx, Option.map_map]
  congr 1
  funext cell
  simp only [Function.comp]
  split <;> rfl

theorem liveCells_store (log : TraceLog) (store : Store) :
    (conversion.store log store).liveCells = store.liveCells := by
  simp only [Store.liveCells, Conversion.store, List.countP_map]
  congr 1
  funext cell
  cases cell <;> rfl

theorem store_collect (log : TraceLog) (held : AddressSet) (store : Store) :
    conversion.store log (store.collect held) = (conversion.store log store).collect held := by
  have length : (conversion.store log store).cells.length = store.cells.length :=
    List.length_map _
  rw [Store.collect, Store.collect, length]
  clear length
  generalize store.cells.length = rounds
  induction rounds generalizing store with
  | zero => rfl
  | succ rounds ih =>
    rw [Store.sweeps_succ, Store.sweeps_succ, ← store_sweep, liveCells_store, liveCells_store]
    split
    · rfl
    · exact ih _

theorem allows_addCell {store : Store} {cell : Cell} (allowed : conversion.Allows store)
    (added : ∀ factory, cell = .pending factory → conversion.allows factory.body) :
    conversion.Allows (store.addCell cell) := by
  intro factory member
  rcases List.mem_append.mp member with old | new
  · exact allowed factory old
  · exact added factory (List.mem_singleton.mp new).symm

theorem allows_setCell {store : Store} {cell : Cell} (address : Address)
    (allowed : conversion.Allows store)
    (set : ∀ factory, cell = .pending factory → conversion.allows factory.body) :
    conversion.Allows (store.setCell address cell) := by
  intro factory member
  rcases List.mem_or_eq_of_mem_set member with old | new
  · exact allowed factory old
  · exact set factory new.symm

/-- A collection leaves no definition to be built that was not there before. -/
theorem allows_collect {store : Store} (held : AddressSet) (allowed : conversion.Allows store) :
    conversion.Allows (store.collect held) := by
  intro factory member
  obtain ⟨address, found⟩ := List.mem_iff_getElem?.mp member
  rcases store.shrinks_collect held address with same | released
  · exact allowed factory (List.mem_of_getElem? (same ▸ found))
  · simp [found] at released

/-- A store that offers a factory has it in a cell. -/
theorem allows_of_offer {store : Store} {address : Address} {factory : Factory}
    (allowed : conversion.Allows store) (offered : store.offer address = .ok (.inr factory)) :
    conversion.allows factory.body := by
  unfold Store.offer at offered
  rcases found : store.cells[address]? with _ | _ | _ | pending | _ <;>
    simp only [found, Option.getD, Cell.offer, Except.ok.injEq, Sum.inr.injEq, reduceCtorEq]
      at offered
  subst offered
  exact allowed _ (List.mem_of_getElem? found)

end Conversion

namespace Run

variable {conversion : Conversion} {log : TraceLog} {α β γ δ : Type}

/-- On the converted store the other run does what the run does on the store, and its result is
converted. The store stays allowed. -/
def Echoes (conversion : Conversion) (log : TraceLog) (convert : α → β) (run : Run α)
    (other : Run β) : Prop :=
  ∀ held store, conversion.Allows store → conversion.Allows (run held store).2 ∧
    other held (conversion.store log store) =
      ((run held store).1.map convert, conversion.store log (run held store).2)

theorem echoes_pure (convert : α → β) (result : α) :
    Echoes conversion log convert (pure result) (pure (convert result)) :=
  fun _ _ allowed => ⟨allowed, rfl⟩

theorem echoes_return {convert : α → β} {result : α} {other : β} (same : convert result = other) :
    Echoes conversion log convert (pure result) (pure other) := same ▸ echoes_pure convert result

theorem echoes_stop (convert : α → β) (fault : Fault) :
    Echoes conversion log convert (stop fault) (stop fault) :=
  fun _ _ allowed => ⟨allowed, rfl⟩

theorem Echoes.bind {convert : α → β} {finish : γ → δ} {first : Run α} {other : Run β}
    {next : α → Run γ} {following : β → Run δ} (before : Echoes conversion log convert first other)
    (later : ∀ result, Echoes conversion log finish (next result) (following (convert result))) :
    Echoes conversion log finish (first >>= next) (other >>= following) := by
  intro held store allowed
  obtain ⟨kept, same⟩ := before held store allowed
  rcases found : first held store with ⟨outcome, after⟩
  rw [found] at kept same
  cases outcome with
  | returned result =>
    rw [bind_of_returned found, bind_of_returned same]
    exact later result held after kept
  | stopped fault =>
    rw [bind_of_stopped found, bind_of_stopped same]
    exact ⟨kept, rfl⟩
  | diverged =>
    rw [bind_of_diverged found, bind_of_diverged same]
    exact ⟨kept, rfl⟩

theorem echoes_orStop (convert : α → β) (result : Option α) (fault : Fault) :
    Echoes conversion log convert (orStop result fault) (orStop (result.map convert) fault) := by
  cases result with
  | none => exact echoes_stop convert fault
  | some value => exact echoes_pure convert value

theorem echoes_modify {change other : Store → Store}
    (allows : ∀ store, conversion.Allows store → conversion.Allows (change store))
    (same : ∀ store, conversion.store log (change store) = other (conversion.store log store)) :
    Echoes conversion log id (modify change) (modify other) := fun _ store allowed =>
  ⟨allows store allowed, by simp [modify, Outcome.map, same]⟩

theorem Echoes.cleaningUp {convert : α → β} {run : Run α} {other : Run β}
    {change cleanup : Store → Store} (echoes : Echoes conversion log convert run other)
    (allows : ∀ store, conversion.Allows store → conversion.Allows (change store))
    (same : ∀ store, conversion.store log (change store) = cleanup (conversion.store log store)) :
    Echoes conversion log convert (Run.cleaningUp change run) (Run.cleaningUp cleanup other) := by
  intro held store allowed
  obtain ⟨kept, ran⟩ := echoes held store allowed
  unfold Run.cleaningUp
  rcases found : run held store with ⟨_ | fault | _, after⟩ <;> rw [found] at kept ran <;> rw [ran]
  · exact ⟨kept, rfl⟩
  · exact ⟨allows after kept, by simp [Outcome.map, same]⟩
  · exact ⟨kept, rfl⟩

theorem echoes_family {convert : α → β} {arity : Nat} {runs : Fin arity → Run α}
    {others : Fin arity → Run β}
    (each : ∀ index, Echoes conversion log convert (runs index) (others index)) :
    Echoes conversion log (fun results index => convert (results index)) (family arity runs)
      (family arity others) := by
  induction arity with
  | zero =>
    intro held store allowed
    refine ⟨allowed, ?_⟩
    simp only [family, pure_apply, Outcome.map]
    congr 2
    funext index
    exact index.elim0
  | succ arity ih =>
    refine (each 0).bind fun first => (ih fun index => each index.succ).bind fun results => ?_
    intro held store allowed
    refine ⟨allowed, ?_⟩
    simp only [pure_apply, Outcome.map]
    congr 2
    funext index
    cases index using Fin.cases <;> rfl

/-- A new cell gets the same address in both stores. -/
theorem echoes_newCell {cell : Cell}
    (allows : ∀ factory, cell = .pending factory → conversion.allows factory.body) :
    Echoes conversion log id (newCell cell) (newCell (conversion.cell cell)) := by
  intro held store allowed
  have added (cell : Cell) (store : Store) : newCell cell held store =
    (.returned store.cells.length, store.addCell cell) := rfl
  rw [added, added]
  refine ⟨Conversion.allows_addCell allowed allows, ?_⟩
  rw [Conversion.store_addCell]
  simp [Conversion.store, Outcome.map]

theorem echoes_setCell (address : Address) {cell : Cell}
    (allows : ∀ factory, cell = .pending factory → conversion.allows factory.body) :
    Echoes conversion log id (modify fun store => store.setCell address cell)
      (modify fun store => store.setCell address (conversion.cell cell)) :=
  echoes_modify (fun _ allowed => Conversion.allows_setCell address allowed allows)
    fun store => Conversion.store_setCell log store address cell

theorem echoes_settle : Echoes conversion log id settle settle := fun held store allowed =>
  ⟨Conversion.allows_collect held allowed, by simp [settle, Outcome.map, Conversion.store_collect]⟩

end Run

/-- An allowed definition and its conversion build the same, each in its own store. -/
def Conversion.Builds (conversion : Conversion) (log : TraceLog) : Prop :=
  ∀ definition scope, conversion.allows definition →
    Run.Echoes conversion log conversion.built (definition.build scope)
      ((conversion.definition definition).build scope)

namespace Run

variable {conversion : Conversion} {log : TraceLog}

theorem force_echoes (builds : conversion.Builds log) (address : Address) {factory : Factory}
    (allowed : conversion.allows factory.body) :
    Echoes conversion log conversion.grammar (force address factory)
      (force address (conversion.factory factory)) := by
  have counts : Echoes conversion log id
      (modify fun store => { store with builds := store.builds + 1 })
      (modify fun store => { store with builds := store.builds + 1 }) :=
    echoes_modify (fun _ allowed => allowed) fun _ => rfl
  refine counts.bind fun _ => ?_
  obtain ⟨failures, message, scope, body⟩ := factory
  cases failures with
  | succ failures =>
    let left := Cell.pending ⟨failures, message, scope, body⟩
    have refills : Echoes conversion log id (modify fun store => store.setCell address left)
        (modify fun store => store.setCell address (conversion.cell left)) := by
      refine echoes_setCell address fun factory same => ?_
      obtain rfl := Cell.pending.inj same
      exact allowed
    exact refills.bind fun _ => echoes_stop _ _
  | zero =>
    exact (builds body scope allowed).bind fun built =>
      (echoes_setCell address fun _ same => Cell.noConfusion same).bind fun _ =>
        echoes_settle.bind fun _ => echoes_pure conversion.grammar built.grammar

theorem offer_apply (address : Address) (held : AddressSet) (store : Store) :
    offer address held store =
      match store.offer address with
      | .ok offered => (.returned offered, store)
      | .error fault => (.stopped (.grammar fault), store) := by
  rw [offer, bind_of_returned (show current held store = (.returned store, store) from rfl)]
  rcases store.offer address with fault | offered <;> rfl

theorem offer_echoes (address : Address) :
    Echoes conversion log (Sum.map conversion.grammar conversion.factory) (offer address)
      (offer address) := by
  intro held store allowed
  rw [offer_apply, offer_apply, Conversion.offer_store]
  rcases store.offer address with fault | offered
  · exact ⟨allowed, rfl⟩
  · exact ⟨allowed, rfl⟩

/-- What the use of a cell comes to is up to what the store offers. -/
theorem resolve_apply (address : Address) (held : AddressSet) (store : Store) :
    resolve address held store =
      match store.offer address with
      | .ok (.inl body) => (.returned body, store)
      | .ok (.inr factory) => force address factory held store
      | .error fault => (.stopped (.grammar fault), store) := by
  rw [resolve, bind_apply, offer_apply]
  rcases store.offer address with fault | body | factory <;> rfl

/-- A cell of the converted store gives the converted grammar. -/
theorem resolve_echoes (builds : conversion.Builds log) (address : Address) :
    Echoes conversion log conversion.grammar (resolve address) (resolve address) := by
  intro held store allowed
  rw [resolve_apply, resolve_apply, Conversion.offer_store]
  rcases offered : store.offer address with fault | body | factory
  · exact ⟨allowed, rfl⟩
  · exact ⟨allowed, rfl⟩
  · exact force_echoes builds address (Conversion.allows_of_offer allowed offered) held store allowed

end Run

namespace Definition

open Run

variable {conversion : Conversion} {log : TraceLog} {body other : Definition}

/-- A name has the converted grammar in the converted table. -/
theorem build_named_echoes (name : Text) (scope : Scope) :
    Echoes conversion log conversion.built ((named name).build scope) ((named name).build scope) := by
  intro held store allowed
  have found : Echoes conversion log conversion.built
      (orStop (store.find? name) (.unknownName name))
      (orStop ((store.find? name).map conversion.built) (.unknownName name)) :=
    echoes_orStop _ _ _
  rw [← Conversion.find?_store log] at found
  exact found held store allowed

/-- A handle is its own twin. -/
theorem build_self_echoes (name : Text) (scope : Scope) :
    Echoes conversion log conversion.built ((self name).build scope) ((self name).build scope) := by
  have found : Echoes conversion log id (orStop (scope.lookup name) (.unknownName name))
      (orStop ((scope.lookup name).map id) (.unknownName name)) := echoes_orStop _ _ _
  rw [Option.map_id] at found
  exact found.bind fun knot => echoes_return (Conversion.built_handle knot)

/-- A deferred definition stays in its cell until it is used. -/
theorem build_deferred_echoes (failures : Nat) (message : Text) (allowed : conversion.allows body)
    (scope : Scope) :
    Echoes conversion log conversion.built ((deferred failures message body).build scope)
      ((deferred failures message (conversion.definition body)).build scope) := by
  let cell := Cell.pending ⟨failures, message, scope, body⟩
  have added : Echoes conversion log id (newCell cell) (newCell (conversion.cell cell)) := by
    refine echoes_newCell fun factory same => ?_
    obtain rfl := Cell.pending.inj same
    exact allowed
  exact added.bind fun knot => echoes_return (Conversion.built_shared knot)

/-- A recursive definition ties the same knot in the converted store. -/
theorem build_recursive_echoes (exposure : Exposure) (name : Text)
    (bodies : ∀ scope, Echoes conversion log conversion.built (body.build scope) (other.build scope))
    (scope : Scope) :
    Echoes conversion log conversion.built ((recursive exposure name body).build scope)
      ((recursive exposure name other).build scope) := by
  have opened : Echoes conversion log id (newCell .unfinished) (newCell .unfinished) :=
    echoes_newCell fun _ same => Cell.noConfusion same
  have quiet : Echoes conversion log id (pure ()) (pure ()) := echoes_pure id ()
  rw [build_recursive, build_recursive]
  refine opened.bind fun knot => Echoes.bind (show Echoes conversion log id _ _ from ?published)
    fun _ => Echoes.bind (Echoes.cleaningUp (Echoes.bind
      (show Echoes conversion log id _ _ from ?premature) fun _ =>
        (bodies _).bind fun built => (show Echoes conversion log id _ _ from ?filled)) ?allows ?same)
      fun _ => echoes_return (Conversion.built_shared knot)
  case published =>
    split
    · refine echoes_modify (fun _ allowed => allowed) fun store => ?_
      rw [Conversion.store_define, Conversion.built_handle]
      rfl
    · exact quiet
  case premature =>
    split
    · exact (offer_echoes knot).bind fun _ => quiet
    · exact quiet
  case filled =>
    exact echoes_setCell knot fun _ same => Cell.noConfusion same
  case allows =>
    exact fun store allowed => Conversion.allows_setCell knot allowed fun _ same =>
      Cell.noConfusion same
  case same =>
    exact fun store => Conversion.store_setCell log store knot .released

end Definition

namespace Conversion

/-- The exchange of the log alone is a conversion that changes no grammar. -/
def identity : Conversion where
  grammar := id
  shared _ := rfl
  handle _ := rfl
  owned _ := rfl
  definition := id
  allows _ := True

theorem store_identity (log : TraceLog) (store : Store) :
    identity.store log store = { store with log } := by
  have cells : identity.cell = id := by
    funext cell
    cases cell <;> rfl
  have entries : (fun entry : Text × Built => (entry.1, identity.built entry.2)) = id := rfl
  simp only [Conversion.store, cells, entries, List.map_id]

open Run

/-- No build depends on the log. -/
theorem builds_identity (log : TraceLog) : identity.Builds log := by
  rintro definition scope -
  have returns {result : Built} : Echoes identity log identity.built (pure result) (pure result) :=
    echoes_pure identity.built result
  change Echoes identity log identity.built (definition.build scope) (definition.build scope)
  induction definition generalizing scope with
  | primitive base => exact returns
  | adapt prism body ih => exact (ih scope).bind fun _ => returns
  | sequence first second firstIh secondIh =>
    exact (firstIh scope).bind fun _ => (secondIh scope).bind fun _ => returns
  | thenDiscard body mark bodyIh markIh =>
    exact (bodyIh scope).bind fun _ => (markIh scope).bind fun _ => returns
  | discardThen mark body markIh bodyIh =>
    exact (markIh scope).bind fun _ => (bodyIh scope).bind fun _ => returns
  | between opening closing body openingIh closingIh bodyIh =>
    exact (openingIh scope).bind fun _ => (closingIh scope).bind fun _ =>
      (bodyIh scope).bind fun _ => returns
  | choice first second firstIh secondIh =>
    exact (firstIh scope).bind fun _ => (secondIh scope).bind fun _ => returns
  | many body ih => exact (ih scope).bind fun _ => returns
  | many1 body ih => exact (ih scope).bind fun _ => returns
  | replicate count body capacity ih => exact (ih scope).bind fun _ => returns
  | dependent determinant parts next extract determinantIh partsIh =>
    exact (determinantIh scope).bind fun _ =>
      (echoes_family fun part => partsIh part scope).bind fun _ => returns
  | withDefault default body ih => exact (ih scope).bind fun _ => returns
  | opt body ih => exact (ih scope).bind fun _ => returns
  | traced name body ih => exact (ih scope).bind fun _ => returns
  | deferred failures message body ih =>
    exact Definition.build_deferred_echoes failures message trivial scope
  | recursive exposure name body ih => exact Definition.build_recursive_echoes exposure name ih scope
  | named name => exact Definition.build_named_echoes name scope
  | self name => exact Definition.build_self_echoes name scope

end Conversion

/-- The use of a cell does not depend on the log and does not change it. -/
theorem Run.resolve_log (address : Address) (held : AddressSet) (store : Store) (log : TraceLog) :
    resolve address held { store with log } =
      ((resolve address held store).1, { (resolve address held store).2 with log }) := by
  have same := (resolve_echoes (Conversion.builds_identity log) address held store
    fun _ _ => trivial).2
  rw [Conversion.store_identity, Conversion.store_identity] at same
  exact same.trans (by rw [show Conversion.identity.grammar = id from rfl, Outcome.map_id])

/-- A collection does not depend on the log. -/
theorem Store.collect_log (held : AddressSet) (store : Store) (log : TraceLog) :
    ({ store with log } : Store).collect held = { store.collect held with log } := by
  rw [← Conversion.store_identity, ← Conversion.store_identity, Conversion.store_collect]

end TwoWayGrammar
