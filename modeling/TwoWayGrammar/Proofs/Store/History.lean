import Mathlib.Logic.Relation
import TwoWayGrammar.Proofs.Grammar.Clauses
import TwoWayGrammar.Proofs.Output.Quiet
import TwoWayGrammar.Proofs.Run.Compatible
import TwoWayGrammar.Proofs.Store.Building

/-! Every run is a sequence of small changes: it logs, it runs factories of deferred definitions, and it
collects. -/

namespace TwoWayGrammar

namespace Store

/-- One change that a run makes to the store while at least the given cells are held. -/
inductive Change (held : AddressSet) (store : Store) : Store → Prop
  | log {log : TraceLog} (same : log.sink.refuses = store.log.sink.refuses) :
      Change held store { store with log }
  | force {wider : AddressSet} (within : held ⊆ wider) {address : Address} {factory : Factory}
      (pending : store.cells[address]? = some (.pending factory)) :
      Change held store (Run.force address factory wider store).2
  | collect {wider : AddressSet} (within : held ⊆ wider) : Change held store (store.collect wider)

/-- A later store is reached by such changes. -/
def Later (held : AddressSet) : Store → Store → Prop := Relation.ReflTransGen (Change held)

theorem Later.refl (held : AddressSet) (store : Store) : Later held store store :=
  Relation.ReflTransGen.refl

theorem Later.trans {held : AddressSet} {first second third : Store}
    (before : Later held first second) (after : Later held second third) :
    Later held first third :=
  Relation.ReflTransGen.trans before after

theorem Change.later {held : AddressSet} {store next : Store} (change : Change held store next) :
    Later held store next :=
  Relation.ReflTransGen.single change

variable {held : AddressSet} {store next : Store} {address owner : Address} {built : Built}

/-- From now on a property of held cells and stores holds, in every later store and with all that is
held now. -/
def FromNowOn (store : Store) (held : AddressSet) (property : AddressSet → Store → Prop) : Prop :=
  ∀ ⦃now⦄, Later held store now → ∀ ⦃wider⦄, held ⊆ wider → property wider now

theorem FromNowOn.later {property : AddressSet → Store → Prop}
    (always : store.FromNowOn held property) (reached : Later held store next) :
    next.FromNowOn held property := fun _ further => always (reached.trans further)

/-- A live cell exists and is not released. -/
def Live (store : Store) (address : Address) : Prop :=
  ∃ cell, store.cells[address]? = some cell ∧ cell ≠ .released

theorem live_of_holding (holds : store.cells[address]? = some (.holding built)) :
    store.Live address :=
  ⟨_, holds, by simp⟩

theorem Live.of_eq {first second : Store} (live : first.Live address)
    (same : second.cells[address]? = first.cells[address]?) : second.Live address := by
  obtain ⟨cell, found, notReleased⟩ := live
  exact ⟨cell, same.trans found, notReleased⟩

theorem not_released_of_live (live : store.Live address) :
    store.cells[address]? ≠ some .released := by
  obtain ⟨cell, found, notReleased⟩ := live
  rw [found]
  simpa using notReleased

/-- A cell is settled when it does not wait for its factory. -/
def Settled (store : Store) (address : Address) (cell : Cell) : Prop :=
  store.cells[address]? = some cell ∧ ∀ factory, cell ≠ .pending factory

/-- A cell is deferred to a factory when it has what runs of the factory leave, or it is released. -/
def DeferredTo (store : Store) (address : Address) (factory : Factory) : Prop :=
  ∃ cell, store.cells[address]? = some cell ∧ (factory.Fills cell ∨ cell = .released)

/-- A factory run fills one cell. Until it collects, live cells stay live, settled cells stay as they
are, and deferred cells stay deferred. -/
theorem force_middle {factory : Factory} (pending : store.cells[owner]? = some (.pending factory))
    (wider : AddressSet) :
    ∃ middle : Store, (∀ other, store.Live other → middle.Live other) ∧
      (∀ other cell, store.Settled other cell → middle.Settled other cell) ∧
      (∀ other first, store.DeferredTo other first → middle.DeferredTo other first) ∧
      middle.log = store.log ∧
      ((Run.force owner factory wider store).2 = middle ∨
        (Run.force owner factory wider store).2 = middle.collect wider) := by
  obtain ⟨middle, left, others, log, filled, fills, forced⟩ := Run.force_cases pending wider
  have kept {other : Address} {cell : Cell} (found : store.cells[other]? = some cell)
      (different : other ≠ owner) : middle.cells[other]? = some cell := by
    rw [others other (List.getElem?_eq_some_iff.mp found).1 different, found]
  refine ⟨middle, ?_, ?_, ?_, log, ?_⟩
  · rintro other ⟨cell, found, notReleased⟩
    by_cases same : other = owner
    · exact same ▸ ⟨left, filled, fills.ne_released⟩
    · exact ⟨cell, kept found same, notReleased⟩
  · rintro other cell ⟨found, notPending⟩
    refine ⟨kept found fun same => ?_, notPending⟩
    rw [same, pending] at found
    exact notPending factory (Option.some.inj found).symm
  · rintro other first ⟨cell, found, stands⟩
    by_cases same : other = owner
    · subst same
      obtain rfl : Cell.pending factory = cell := Option.some.inj (pending.symm.trans found)
      exact ⟨left, filled, .inl ((stands.resolve_right (by simp)).again fills)⟩
    · exact ⟨cell, kept found same, stands⟩
  · rcases forced with ⟨fault, stopped⟩ | ⟨built, _, returned⟩
    · exact .inl (by rw [stopped])
    · exact .inr (by rw [returned])

/-- A settled cell stays as it is, or it is released. -/
theorem Change.settled {cell : Cell} (change : Change held store next)
    (settled : store.Settled address cell) :
    next.Settled address cell ∨ next.Settled address .released := by
  have released (left : Store) (gone : left.cells[address]? = some .released) :
      left.Settled address .released := ⟨gone, by simp⟩
  cases change with
  | log same => exact .inl settled
  | @force wider within owner factory pending =>
    obtain ⟨middle, _, kept, _, _, after | after⟩ := force_middle pending wider
    · rw [after]
      exact .inl (kept address cell settled)
    · rw [after]
      obtain ⟨found, notPending⟩ := kept address cell settled
      rcases shrinks_collect wider middle address with same | gone
      · exact .inl ⟨same.trans found, notPending⟩
      · exact .inr (released _ gone)
  | @collect wider within =>
    rcases shrinks_collect wider store address with same | gone
    · exact .inl ⟨same.trans settled.1, settled.2⟩
    · exact .inr (released _ gone)

theorem Later.settled {cell : Cell} (later : Later held store next)
    (settled : store.Settled address cell) :
    next.Settled address cell ∨ next.Settled address .released := by
  induction later with
  | refl => exact .inl settled
  | tail _ change ih =>
    rcases ih with same | gone
    · exact change.settled same
    · exact (change.settled gone).elim .inr .inr

/-- A finished cell keeps its grammar for good, unless it is released. -/
theorem Later.holding (later : Later held store next)
    (holds : store.cells[address]? = some (.holding built)) :
    next.cells[address]? = some (.holding built) ∨ next.cells[address]? = some .released :=
  (later.settled ⟨holds, by simp⟩).imp And.left And.left

theorem DeferredTo.collect {factory : Factory} (deferred : store.DeferredTo address factory)
    (wider : AddressSet) : (store.collect wider).DeferredTo address factory := by
  obtain ⟨cell, found, stands⟩ := deferred
  rcases shrinks_collect wider store address with same | gone
  · exact ⟨cell, same.trans found, stands⟩
  · exact ⟨.released, gone, .inr rfl⟩

theorem Change.deferredTo {factory : Factory} (change : Change held store next)
    (deferred : store.DeferredTo address factory) : next.DeferredTo address factory := by
  cases change with
  | log same => exact deferred
  | @force wider within owner forced pending =>
    obtain ⟨middle, _, _, kept, _, after | after⟩ := force_middle pending wider
    · rw [after]
      exact kept address factory deferred
    · rw [after]
      exact (kept address factory deferred).collect wider
  | @collect wider within => exact deferred.collect wider

/-- A deferred cell never holds anything but what a run of its factory built. -/
theorem Later.deferredTo {factory : Factory} (later : Later held store next)
    (pending : store.cells[address]? = some (.pending factory)) :
    next.DeferredTo address factory := by
  induction later with
  | refl => exact ⟨_, pending, .inl (.pending factory.failures)⟩
  | tail _ change ih => exact change.deferredTo ih

/-- A held cell stays live. -/
theorem Change.live_of_held (change : Change held store next) (member : address ∈ held)
    (live : store.Live address) : next.Live address := by
  cases change with
  | log same => exact live
  | @force wider within owner factory pending =>
    obtain ⟨middle, lives, _, _, _, after | after⟩ := force_middle pending wider
    · rw [after]
      exact lives address live
    · rw [after]
      exact (lives address live).of_eq (cells_collect_of_held (within address member))
  | @collect wider within => exact live.of_eq (cells_collect_of_held (within address member))

/-- A cell stays live when a finished cell owns it that is not released. -/
theorem Change.live_of_owner (change : Change held store next)
    (holds : store.cells[owner]? = some (.holding built))
    (survives : next.cells[owner]? ≠ some .released) (member : address ∈ built.owned)
    (live : store.Live address) : next.Live address := by
  cases change with
  | log same => exact live
  | @force wider within forced factory pending =>
    obtain ⟨middle, lives, kept, _, _, after | after⟩ := force_middle pending wider
    · rw [after]
      exact lives address live
    · rw [after] at survives ⊢
      exact (lives address live).of_eq
        (cells_collect_of_owner (kept owner _ ⟨holds, by simp⟩).1 member survives)
  | @collect wider within => exact live.of_eq (cells_collect_of_owner holds member survives)

theorem Change.quiet (change : Change held store next) (quiet : store.Quiet) : next.Quiet := by
  cases change with
  | log same => exact same.trans quiet
  | @force wider within owner factory pending =>
    obtain ⟨middle, _, _, _, log, after | after⟩ := force_middle pending wider
    · rw [after, Quiet, log]
      exact quiet
    · rw [after, Quiet, log_collect, log]
      exact quiet
  | collect within =>
    rw [Quiet, log_collect]
    exact quiet

theorem Later.quiet (later : Later held store next) (quiet : store.Quiet) : next.Quiet := by
  induction later with
  | refl => exact quiet
  | tail _ change ih => exact change.quiet ih

/-- An entry in the log leads to a later store. -/
theorem later_of_enter {operation name : Text} {log : TraceLog}
    (opened : store.log.enter operation name = .ok log) : Later held store { store with log } := by
  have same := store.log.refuses_enter operation name
  rw [opened] at same
  exact (Change.log same).later

/-- An exit in the log leads to a later store. -/
theorem later_of_leave {operation name : Text} {ok : Bool} {log : TraceLog}
    (closed : store.log.leave operation name ok = .ok log) :
    Later held store { store with log } := by
  have same := store.log.refuses_leave operation name ok
  rw [closed] at same
  exact (Change.log same).later

/-- A run that holds cells leads to a later store, whether it collects in the end or not. -/
theorem later_of_settled {wider : AddressSet} (within : held ⊆ wider)
    (settled : next = store ∨ next = store.collect wider) : Later held store next := by
  rcases settled with rfl | rfl
  · exact .refl held next
  · exact (Change.collect within).later

/-- A cell is kept when no later store has released it. -/
def Keeps (held : AddressSet) (store : Store) (address : Address) : Prop :=
  ∀ later, Later held store later → later.cells[address]? ≠ some .released

theorem Keeps.later (keeps : Keeps held store address) (after : Later held store next) :
    Keeps held next address := fun later reached =>
  keeps later (after.trans reached)

theorem Keeps.holding (keeps : Keeps held store address) (later : Later held store next)
    (holds : store.cells[address]? = some (.holding built)) :
    next.cells[address]? = some (.holding built) :=
  (later.holding holds).resolve_right (keeps next later)

/-- What is held is kept. -/
theorem keeps_of_held (member : address ∈ held) (live : store.Live address) :
    Keeps held store address := by
  intro later reached
  refine not_released_of_live ?_
  induction reached with
  | refl => exact live
  | tail _ change ih => exact change.live_of_held member ih

/-- What a kept cell owns is kept. -/
theorem keeps_of_owner (keeps : Keeps held store owner)
    (holds : store.cells[owner]? = some (.holding built)) (member : address ∈ built.owned)
    (live : store.Live address) : Keeps held store address := by
  intro later reached
  refine not_released_of_live ?_
  induction reached with
  | refl => exact live
  | @tail between last before change ih =>
    exact change.live_of_owner (keeps.holding before holds)
      (keeps last (Relation.ReflTransGen.tail before change)) member ih

/-- A cell is secured when it is held or when a kept cell owns it. -/
def Secures (held : AddressSet) (store : Store) (address : Address) : Prop :=
  address ∈ held ∨ ∃ owner built, store.cells[owner]? = some (.holding built) ∧
    Keeps held store owner ∧ address ∈ built.owned

theorem Secures.later (secures : Secures held store address) (reached : Later held store next) :
    Secures held next address := by
  rcases secures with member | ⟨owner, built, holds, keeps, member⟩
  · exact .inl member
  · exact .inr ⟨owner, built, keeps.holding reached holds, keeps.later reached, member⟩

theorem Secures.keeps (secures : Secures held store address) (live : store.Live address) :
    Keeps held store address := by
  rcases secures with member | ⟨owner, built, holds, keeps, member⟩
  · exact keeps_of_held member live
  · exact keeps_of_owner keeps holds member live

/-- Cells are secured when each of them is. -/
def Secured (held : AddressSet) (store : Store) (cells : AddressSet) : Prop :=
  ∀ address ∈ cells, Secures held store address

theorem Secured.left {first second : AddressSet} (secured : Secured held store (first ∪ second)) :
    Secured held store first := fun address member =>
  secured address (AddressSet.subset_union_left first second address member)

theorem Secured.right {first second : AddressSet} (secured : Secured held store (first ∪ second)) :
    Secured held store second := fun address member =>
  secured address (AddressSet.subset_union_right first second address member)

/-- What is held is secured. -/
theorem secured_of_held {cells : AddressSet} (within : cells ⊆ held) : Secured held store cells :=
  fun address member => .inl (within address member)

/-- What a kept cell owns is secured. -/
theorem secured_of_holding (holds : store.cells[address]? = some (.holding built))
    (keeps : Keeps held store address) : Secured held store built.grammar.owned := by
  intro owned member
  exact .inr ⟨address, built, holds, keeps, by rwa [built.owned_eq]⟩

end Store

namespace Run

variable {α β : Type} {held : AddressSet}

/-- A run evolves the store when it leads to a later one, however it ends. -/
def Evolves (held : AddressSet) (run : Run α) : Prop :=
  ∀ wider, held ⊆ wider → ∀ store, Store.Later held store (run wider store).2

theorem evolves_pure (result : α) : Evolves held (pure result : Run α) := fun _ _ store =>
  .refl held store

theorem evolves_stop (fault : Fault) : Evolves held (stop fault : Run α) := fun _ _ store =>
  .refl held store

theorem Evolves.bind {first : Run α} {next : α → Run β} (before : Evolves held first)
    (later : ∀ result, Evolves held (next result)) : Evolves held (first >>= next) :=
  fun wider within store => bind_leads (Store.Later held) .trans (before wider within store)
    fun result middle => later result wider within middle

theorem Evolves.map (change : α → β) {run : Run α} (evolves : Evolves held run) :
    Evolves held (change <$> run) := by
  rw [map_eq_pure_bind]
  exact evolves.bind fun _ => evolves_pure _

theorem Evolves.attempt {run : Run α} (evolves : Evolves held run) :
    Evolves held (Run.attempt run) := by
  intro wider within store
  rw [attempt_store]
  exact evolves wider within store

theorem evolves_logging {action : TraceLog → Except TraceLog TraceLog}
    (same : ∀ log, (eitherWay (action log)).sink.refuses = log.sink.refuses) :
    Evolves held (logging action) := by
  intro wider within store
  rw [logging_apply]
  exact (Store.Change.log (same store.log)).later

theorem Evolves.traced (operation name : Text) (ok : α → Bool) {run : Run α}
    (evolves : Evolves held run) : Evolves held (Run.traced operation name ok run) := by
  have closing (result : Bool) : Evolves held (logging (·.leave operation name result)) :=
    evolves_logging fun log => log.refuses_leave operation name result
  refine (evolves_logging fun log => log.refuses_enter operation name).bind fun _ =>
    evolves.attempt.bind fun attempted => ?_
  cases attempted with
  | ok result => exact (closing _).bind fun _ => evolves_pure result
  | error fault => exact (closing _).bind fun _ => evolves_stop fault

theorem Evolves.holding (cells : AddressSet) {run : Run α} (evolves : Evolves held run) :
    Evolves held (Run.holding cells run) := by
  intro wider within store
  have reached := evolves (wider ∪ cells)
    (AddressSet.Subset.trans within (AddressSet.subset_union_left wider cells)) store
  exact reached.trans (Store.later_of_settled within (holding_apply cells run wider store).2)

theorem evolves_resolve (address : Address) : Evolves held (resolve address) := by
  intro wider within store
  rcases resolve_cases address wider store with ⟨built, _, same⟩ | ⟨factory, pending, same⟩ |
    ⟨fault, same⟩
  · rw [same]
    exact .refl held store
  · rw [same]
    exact (Store.Change.force within pending).later
  · rw [same]
    exact .refl held store

/-- Wherever an evolving run ends, the store is a later one. -/
theorem Evolves.later {run : Run α} (evolves : Evolves held run) {wider : AddressSet}
    (within : held ⊆ wider) {store after : Store} {outcome : Outcome α}
    (ran : run wider store = (outcome, after)) : Store.Later held store after := by
  have reached := evolves wider within store
  rwa [ran] at reached

/-- A cell that was used holds the grammar that it gave, or it is released at once. -/
theorem holding_or_released_of_resolve {address : Address} {wider : AddressSet}
    {store after : Store} {body : Grammar}
    (resolved : resolve address wider store = (.returned body, after)) :
    (∃ built, after.cells[address]? = some (.holding built) ∧ built.grammar = body) ∨
      after.cells[address]? = some .released := by
  rcases resolve_cases address wider store with ⟨built, holds, same⟩ | ⟨factory, pending, same⟩ |
    ⟨fault, same⟩
  · rw [same] at resolved
    obtain ⟨rfl, rfl⟩ : built.grammar = body ∧ store = after := by simpa using resolved
    exact .inl ⟨built, holds, rfl⟩
  · rw [same] at resolved
    obtain ⟨middle, _, _, _, holds, _, ⟨fault, stopped⟩ | ⟨built, rfl, returned⟩⟩ :=
      force_cases pending wider
    · simp [stopped] at resolved
    · rw [returned] at resolved
      obtain ⟨rfl, rfl⟩ : built.grammar = body ∧ middle.collect wider = after := by
        simpa using resolved
      rcases Store.shrinks_collect wider middle address with unchanged | released
      · exact .inl ⟨built, unchanged.trans holds, rfl⟩
      · exact .inr released
  · simp [same] at resolved

/-- A kept cell that was used holds the grammar that it gave. -/
theorem holds_of_resolve {address : Address} {wider : AddressSet} {store after : Store}
    {body : Grammar} (within : held ⊆ wider) (keeps : Store.Keeps held store address)
    (resolved : resolve address wider store = (.returned body, after)) :
    ∃ built, after.cells[address]? = some (.holding built) ∧ built.grammar = body := by
  have reached := (evolves_resolve address).later within resolved
  exact (holding_or_released_of_resolve resolved).resolve_right (keeps _ reached)

/-- A cell that could be used was live. -/
theorem live_of_resolve {address : Address} {wider : AddressSet} {store after : Store}
    {body : Grammar} (resolved : resolve address wider store = (.returned body, after)) :
    store.Live address := by
  rcases resolve_cases address wider store with ⟨built, holds, _⟩ | ⟨factory, pending, _⟩ |
    ⟨fault, same⟩
  · exact ⟨_, holds, by simp⟩
  · exact ⟨_, pending, by simp⟩
  · simp [same] at resolved

theorem evolves_compatible (held : AddressSet) :
    Compatible fun _ run _ => Evolves held run where
  diverge _ := fun _ _ store => .refl held store
  pure _ := evolves_pure _
  stop _ := evolves_stop _
  bind before later := before.bind later
  traced operation name ok _ _ evolves := evolves.traced operation name ok
  holding _ _ _ evolves := evolves.holding _
  resolve address := evolves_resolve address

theorem Evolves.onSuccess {found : Run (Match α)} {next : α → Input → Run (Match β)}
    (first : Evolves held found) (second : ∀ value rest, Evolves held (next value rest)) :
    Evolves held (Run.onSuccess found next) :=
  @Compatible.onSuccess _ α β (evolves_compatible held) found found next next first second

theorem Evolves.readMany {item : Input → Run (Match α)}
    (items : ∀ input, Evolves held (item input)) (attempts : Nat) (input : Input) :
    Evolves held (Run.readMany item attempts input) :=
  @Compatible.readMany _ α (evolves_compatible held) item item items attempts attempts
    (Nat.le_refl attempts) input

theorem Evolves.readTimes {item : Input → Run (Match α)}
    (items : ∀ input, Evolves held (item input)) (times : Nat) (input : Input) :
    Evolves held (Run.readTimes item times input) :=
  @Compatible.readTimes _ α (evolves_compatible held) item item items times input

theorem Evolves.writeEach {item : α → Input → Run Input}
    (items : ∀ value rest, Evolves held (item value rest)) (values : List α) (rest : Input) :
    Evolves held (Run.writeEach item values rest) :=
  @Compatible.writeEach _ α (evolves_compatible held) item item items values rest

end Run

namespace Grammar

theorem readWith_evolves {held : AddressSet} {enter : Grammar → Input → Run (Match Value)}
    (enters : ∀ grammar input, Run.Evolves held (enter grammar input)) (patience : Nat)
    (grammar : Grammar) (input : Input) :
    Run.Evolves held (grammar.readWith patience enter input) :=
  @readWith_compatible _ (Run.evolves_compatible held) patience patience (Nat.le_refl patience)
    enter enter enters grammar input

theorem read_evolves (held : AddressSet) (fuel : Nat) (grammar : Grammar) (input : Input) :
    Run.Evolves held (grammar.read fuel input) :=
  read_compatible (Run.evolves_compatible held) (Nat.le_refl fuel) grammar input

theorem write_evolves (held : AddressSet) (fuel : Nat) (grammar : Grammar) (value : Value)
    (rest : Input) : Run.Evolves held (grammar.write fuel value rest) :=
  write_compatible (Run.evolves_compatible held) (Nat.le_refl fuel) grammar value rest

theorem readNested_evolves (held : AddressSet) (fuel : Nat) (grammar : Grammar) (input : Input) :
    Run.Evolves held (grammar.readNested fuel input) := by
  cases fuel with
  | zero => exact fun _ _ store => .refl held store
  | succ fuel => exact read_evolves held fuel grammar input

end Grammar

end TwoWayGrammar
