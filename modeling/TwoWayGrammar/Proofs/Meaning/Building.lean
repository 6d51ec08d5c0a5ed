import TwoWayGrammar.Proofs.Meaning.Definition
import TwoWayGrammar.Proofs.Store.Building

namespace TwoWayGrammar

open Behaviour

/-- An interpretation follows meanings of cells when it treats each of the first cells like its meaning
and traces without effect. -/
structure Interpretation.Follows {m : Type → Type} [Monad m] [Faulting m]
    (related : (α : Type) → m α → Fuelled α → Prop) (interpretation : Interpretation m)
    (cells : Address → Meaning) (size : Nat) : Prop where
  respects : Respects related
  ends : ∀ {α : Type}, related α Faulting.diverge Faulting.diverge
  loop : Loop.Related related interpretation.loop Fuelled.loop
  traced : ∀ (name : Text) {body : Behaviour m} {other : Meaning},
    body.Related related other → (interpretation.traced name body).Related related other
  shared : ∀ cell < size, (interpretation.shared cell).Related related (cells cell)
  handle : ∀ cell < size, (interpretation.handle cell).Related related (cells cell)

/-- A grammar denotes a meaning when it behaves like it under every interpretation that follows the
meanings of the cells. -/
structure Grammar.Denotes (cells : Address → Meaning) (size : Nat) (grammar : Grammar)
    (meaning : Meaning) : Prop where
  behaves : ∀ {m : Type → Type} [Monad m] [Faulting m]
    {related : (α : Type) → m α → Fuelled α → Prop} {interpretation : Interpretation m},
    interpretation.Follows related cells size →
      (grammar.behaviour interpretation).Related related meaning

/-- What handles mean in a scope. -/
def Scope.meaning (cells : Address → Meaning) (scope : Scope) (name : Text) : Meaning :=
  match scope.lookup name with
  | some knot => cells knot
  | none => .bottom

theorem Scope.meaning_cons (cells : Address → Meaning) (scope : Scope) (name : Text)
    (knot : Address) :
    Scope.meaning cells ((name, knot) :: scope) =
      Function.update (Scope.meaning cells scope) name (cells knot) := by
  funext other
  by_cases same : other = name
  · subst same
    simp [Scope.meaning]
  · have missed : (other == name) = false := by simp [same]
    simp [Scope.meaning, Function.update_of_ne same, List.lookup_cons, missed]

theorem Scope.mem_of_lookup {scope : Scope} {name : Text} {knot : Address}
    (found : scope.lookup name = some knot) : (name, knot) ∈ scope := by
  obtain ⟨before, after, rfl, _⟩ := List.lookup_eq_some_iff.mp found
  simp

/-- A scope refers to the first cells only. -/
def Scope.Within (scope : Scope) (size : Nat) : Prop := ∀ entry ∈ scope, entry.2 < size

theorem Scope.meaning_congr {scope : Scope} {size : Nat} (within : scope.Within size)
    {cells others : Address → Meaning} (same : ∀ cell < size, others cell = cells cell) :
    scope.meaning others = scope.meaning cells := by
  funext name
  unfold Scope.meaning
  split
  · rename_i knot found
    exact same knot (within _ (Scope.mem_of_lookup found))
  · rfl

namespace Grammar

variable {cells others : Address → Meaning} {size more : Nat} {grammar first second : Grammar}
  {meaning left right : Meaning}

/-- Meanings of further cells change nothing. -/
theorem Denotes.mono (denotes : grammar.Denotes cells size meaning) (within : size ≤ more)
    (same : ∀ cell < size, others cell = cells cell) : grammar.Denotes others more meaning :=
  ⟨fun follows => denotes.behaves
    { follows with
      shared := fun cell inside =>
        same cell inside ▸ follows.shared cell (Nat.lt_of_lt_of_le inside within)
      handle := fun cell inside =>
        same cell inside ▸ follows.handle cell (Nat.lt_of_lt_of_le inside within) }⟩

theorem denotes_primitive (base : Primitive) : (primitive base).Denotes cells size (.primitive base) :=
  ⟨fun follows => .primitive follows.respects base⟩

theorem Denotes.adapt (prism : ValuePrism) (body : grammar.Denotes cells size meaning) :
    (Grammar.adapt prism grammar).Denotes cells size (.adapt prism meaning) :=
  ⟨fun follows => .adapt follows.respects prism (body.behaves follows)⟩

theorem Denotes.sequence (head : first.Denotes cells size left)
    (tail : second.Denotes cells size right) :
    (Grammar.sequence first second).Denotes cells size (.sequence left right) :=
  ⟨fun follows => .sequence follows.respects (head.behaves follows) (tail.behaves follows)⟩

theorem Denotes.thenDiscard (head : first.Denotes cells size left)
    (tail : second.Denotes cells size right) :
    (Grammar.thenDiscard first second).Denotes cells size (.thenDiscard left right) :=
  ⟨fun follows => .thenDiscard follows.respects (head.behaves follows) (tail.behaves follows)⟩

theorem Denotes.discardThen (head : first.Denotes cells size left)
    (tail : second.Denotes cells size right) :
    (Grammar.discardThen first second).Denotes cells size (.discardThen left right) :=
  ⟨fun follows => .discardThen follows.respects (head.behaves follows) (tail.behaves follows)⟩

theorem Denotes.choice (head : first.Denotes cells size left)
    (tail : second.Denotes cells size right) :
    (Grammar.choice first second).Denotes cells size (.choice left right) :=
  ⟨fun follows => .choice follows.respects (head.behaves follows) (tail.behaves follows)⟩

theorem Denotes.many (body : grammar.Denotes cells size meaning) :
    (Grammar.many grammar).Denotes cells size (.many Fuelled.loop meaning) :=
  ⟨fun follows => .many follows.respects follows.loop (body.behaves follows)⟩

theorem Denotes.many1 (body : grammar.Denotes cells size meaning) :
    (Grammar.many1 grammar).Denotes cells size
      (.adapt Prism.pairAsNonEmpty (.sequence meaning (.many Fuelled.loop meaning))) :=
  (body.sequence body.many).adapt _

theorem Denotes.replicate (capacity : Capacity) (count : Nat) (body : grammar.Denotes cells size meaning) :
    (Grammar.replicate capacity count grammar).Denotes cells size
      (.replicate capacity count meaning) :=
  ⟨fun follows => .replicate follows.respects capacity count (body.behaves follows)⟩

theorem Denotes.dependent {arity : Nat} {parts : Fin arity → Grammar} {meanings : Fin arity → Meaning}
    {next : (Fin arity → Grammar) → Value → Grammar} (determinant : grammar.Denotes cells size meaning)
    (each : ∀ part, (parts part).Denotes cells size (meanings part)) (parametric : Parametric next)
    (extract : Value → Value) (captured : AddressSet) :
    (Grammar.dependent grammar (next parts) extract captured).Denotes cells size
      (.dependent meaning
        (fun value => (next Grammar.place value).behaviour
          ((Meaning.interpretation fun _ => .bottom).withParts meanings)) extract) := by
  refine ⟨fun {m _ _ related interpretation} follows => ?_⟩
  refine .dependent follows.respects (determinant.behaves follows) (fun value => ?_) extract
  rw [parametric]
  exact Grammar.behaviour_related follows.respects
    (Interpretation.withParts_related follows.ends follows.loop follows.traced
      fun part => (each part).behaves follows) _

theorem Denotes.withDefault (default : Value) (body : grammar.Denotes cells size meaning) :
    (Grammar.withDefault default grammar).Denotes cells size (.withDefault default meaning) :=
  ⟨fun follows => .withDefault follows.respects default (body.behaves follows)⟩

theorem Denotes.opt (body : grammar.Denotes cells size meaning) :
    (Grammar.opt grammar).Denotes cells size (.opt meaning) :=
  ⟨fun follows => .opt follows.respects (body.behaves follows)⟩

theorem Denotes.traced (name : Text) (body : grammar.Denotes cells size meaning) :
    (Grammar.traced name grammar).Denotes cells size meaning :=
  ⟨fun follows => follows.traced name (body.behaves follows)⟩

theorem denotes_shared {cell : Address} (inside : cell < size) :
    (shared cell).Denotes cells size (cells cell) :=
  ⟨fun follows => follows.shared cell inside⟩

theorem denotes_handle {cell : Address} (inside : cell < size) :
    (handle cell).Denotes cells size (cells cell) :=
  ⟨fun follows => follows.handle cell inside⟩

end Grammar

/-- The names that others may use, and what they mean once all of them are defined. -/
structure Naming where
  known : List Text
  late : Text → Meaning

/-- A cell means what its grammar denotes or what its factory will build, one level deeper. -/
inductive Naming.CellMeans (naming : Naming) (cells : Address → Meaning) (size : Nat) :
    Cell → Meaning → Prop
  | holding {built : Built} {meaning : Meaning} (denotes : built.grammar.Denotes cells size meaning) :
      CellMeans naming cells size (.holding built) meaning.deeper
  | pending {factory : Factory} (ready : factory.failures = 0)
      (within : factory.scope.Within size)
      (regular : factory.body.Regular naming.known naming.known (factory.scope.map (·.1))) :
      CellMeans naming cells size (.pending factory)
        (factory.body.meaning naming.late naming.late (factory.scope.meaning cells)).deeper

/-- The second store has further cells with meanings, and each of them is owned by one of the roots or
by a cell. Names that others may use stand for what they stood for. -/
structure Naming.Grows (naming : Naming) (cells : Address → Meaning) (store : Store)
    (others : Address → Meaning) (after : Store) (roots : AddressSet) : Prop where
  frame : store.Frame store.cells.length after
  names : ∀ name ∈ naming.known, after.find? name = store.find? name
  agree : ∀ cell < store.cells.length, others cell = cells cell
  means : ∀ (address : Address) (cell : Cell), store.cells.length ≤ address → after.cells[address]? = some cell →
    naming.CellMeans others after.cells.length cell (others address)
  owned : ∀ address : Address, store.cells.length ≤ address → address < after.cells.length →
    address ∈ roots ∨ ∃ (owner : Address) (built : Built), after.cells[owner]? = some (.holding built) ∧
      address ∈ built.owned

namespace Naming

variable {naming : Naming} {cells others last : Address → Meaning} {store middle after : Store}
  {roots more : AddressSet}

theorem CellMeans.mono {cell : Cell} {meaning : Meaning} {size larger : Nat}
    (means : naming.CellMeans cells size cell meaning) (within : size ≤ larger)
    (same : ∀ address < size, others address = cells address) :
    naming.CellMeans others larger cell meaning := by
  cases means with
  | holding denotes => exact .holding (denotes.mono within same)
  | pending ready inside regular =>
    rw [← Scope.meaning_congr inside same]
    exact .pending ready (fun entry member => Nat.lt_of_lt_of_le (inside entry member) within) regular

theorem Grows.refl (naming : Naming) (cells : Address → Meaning) (store : Store)
    (roots : AddressSet) : naming.Grows cells store cells store roots where
  frame := .refl _ store
  names _ _ := rfl
  agree _ _ := rfl
  means address _ beyond found := by
    rw [List.getElem?_eq_none beyond] at found
    simp at found
  owned address beyond inside := absurd inside (Nat.not_lt_of_le beyond)

theorem Grows.mono (grows : naming.Grows cells store others after roots) (within : roots ⊆ more) :
    naming.Grows cells store others after more :=
  { grows with
    owned := fun address beyond inside =>
      (grows.owned address beyond inside).imp_left (within address) }

/-- The first cells stay as they are. -/
theorem Grows.cells_eq (grows : naming.Grows cells store others after roots) {address : Address}
    (inside : address < store.cells.length) : after.cells[address]? = store.cells[address]? :=
  grows.frame.cells address inside

theorem Grows.trans (before : naming.Grows cells store others middle roots)
    (later : naming.Grows others middle last after more) :
    naming.Grows cells store last after (roots ∪ more) where
  frame := before.frame.trans (later.frame.mono before.frame.length)
  names name member := (later.names name member).trans (before.names name member)
  agree address inside :=
    (later.agree address (Nat.lt_of_lt_of_le inside before.frame.length)).trans
      (before.agree address inside)
  means address cell beyond found := by
    rcases Nat.lt_or_ge address middle.cells.length with inside | further
    · rw [later.cells_eq inside] at found
      rw [later.agree address inside]
      exact (before.means address cell beyond found).mono later.frame.length later.agree
    · exact later.means address cell further found
  owned address beyond inside := by
    rcases Nat.lt_or_ge address middle.cells.length with early | further
    · rcases before.owned address beyond early with root | ⟨owner, built, holds, member⟩
      · exact .inl (AddressSet.subset_union_left _ _ _ root)
      · refine .inr ⟨owner, built, ?_, member⟩
        rw [later.cells_eq (List.getElem?_eq_some_iff.mp holds).1, holds]
    · exact (later.owned address further inside).imp_left (AddressSet.subset_union_right _ _ _)

end Naming

/-- The place of a definition: which names it may use when it is built, what they mean, and what the
handles in its scope mean. -/
structure Place where
  naming : Naming
  eager : List Text
  eagers : Text → Meaning
  scope : Scope
  handles : Text → Meaning

namespace Place

/-- A store fits a place when its names and cells mean what the place says. -/
structure Fits (place : Place) (cells : Address → Meaning) (store : Store) : Prop where
  covered : ∀ name ∈ place.eager, name ∈ place.naming.known
  within : place.scope.Within store.cells.length
  handles : place.scope.meaning cells = place.handles
  names : ∀ name ∈ place.eager, ∃ built, store.find? name = some built ∧
    built.grammar.Denotes cells store.cells.length (place.eagers name)

variable {place : Place} {cells others : Address → Meaning} {store after : Store}
  {roots : AddressSet} {run first second : Run Built} {meaning left right : Meaning}

/-- What fits goes on to fit while the store grows. -/
theorem Fits.grows (fits : place.Fits cells store)
    (grows : place.naming.Grows cells store others after roots) : place.Fits others after where
  covered := fits.covered
  within entry member := Nat.lt_of_lt_of_le (fits.within entry member) grows.frame.length
  handles := (Scope.meaning_congr fits.within grows.agree).trans fits.handles
  names name member := by
    obtain ⟨built, found, denotes⟩ := fits.names name member
    exact ⟨built, (grows.names name (fits.covered name member)).trans found,
      denotes.mono grows.frame.length grows.agree⟩

/-- At this place the run builds a grammar that denotes the meaning. -/
structure Builds (place : Place) (run : Run Built) (meaning : Meaning) : Prop where
  grows : ∀ {cells : Address → Meaning} {store : Store}, place.Fits cells store → ∀ held,
    ∃ built after others, run held store = (.returned built, after) ∧
      place.naming.Grows cells store others after built.owned ∧
      built.grammar.Denotes others after.cells.length meaning

/-- A grammar that is there already is built without a change. -/
theorem builds_pure {built : Built}
    (denotes : ∀ {cells store}, place.Fits cells store →
      built.grammar.Denotes cells store.cells.length meaning) :
    place.Builds (pure built) meaning :=
  ⟨fun fits _ => ⟨built, _, _, rfl, .refl _ _ _ _, denotes fits⟩⟩

theorem Builds.wrap {combine : Grammar → Grammar} {keeps : ∀ body, (combine body).owned = body.owned}
    {result : Meaning} (builds : place.Builds run meaning)
    (denotes : ∀ {cells size grammar}, Grammar.Denotes cells size grammar meaning →
      (combine grammar).Denotes cells size result) :
    place.Builds (do return .wrap combine keeps (← run)) result := by
  refine ⟨fun {cells store} fits held => ?_⟩
  obtain ⟨built, after, others, ran, grows, body⟩ := builds.grows fits held
  exact ⟨.wrap combine keeps built, after, others, Run.bind_of_returned ran, grows, denotes body⟩

/-- Two parts are built one after the other, and the second leaves the meaning of the first. -/
theorem Builds.pair (builds : place.Builds first left) (further : place.Builds second right)
    (fits : place.Fits cells store) (held : AddressSet) :
    ∃ head tail middle after others, first held store = (.returned head, middle) ∧
      second held middle = (.returned tail, after) ∧
      place.naming.Grows cells store others after (head.owned ∪ tail.owned) ∧
      head.grammar.Denotes others after.cells.length left ∧
      tail.grammar.Denotes others after.cells.length right := by
  obtain ⟨head, middle, between, ran, grows, denotes⟩ := builds.grows fits held
  obtain ⟨tail, after, others, next, later, rest⟩ := further.grows (fits.grows grows) held
  exact ⟨head, tail, middle, after, others, ran, next, grows.trans later,
    denotes.mono later.frame.length later.agree, rest⟩

theorem Builds.join {combine : Grammar → Grammar → Grammar}
    {keeps : ∀ head tail, (combine head tail).owned = head.owned ∪ tail.owned} {result : Meaning}
    (builds : place.Builds first left) (further : place.Builds second right)
    (denotes : ∀ {cells size head tail}, Grammar.Denotes cells size head left →
      Grammar.Denotes cells size tail right → (combine head tail).Denotes cells size result) :
    place.Builds (do return .join combine keeps (← first) (← second)) result := by
  refine ⟨fun {cells store} fits held => ?_⟩
  obtain ⟨head, tail, middle, after, others, ran, next, grows, body, rest⟩ :=
    builds.pair further fits held
  refine ⟨.join combine keeps head tail, after, others, ?_, grows, denotes body rest⟩
  rw [Run.bind_of_returned ran, Run.bind_of_returned next]
  rfl

/-- The parts of a family are built in order, and each leaves the meanings of those before it. -/
theorem builds_family {arity : Nat} {runs : Fin arity → Run Built} {meanings : Fin arity → Meaning}
    (each : ∀ part, place.Builds (runs part) (meanings part)) (fits : place.Fits cells store)
    (held : AddressSet) :
    ∃ parts after others, Run.family arity runs held store = (.returned parts, after) ∧
      place.naming.Grows cells store others after
        (AddressSet.unions (List.ofFn fun part => (parts part).owned)) ∧
      ∀ part, (parts part).grammar.Denotes others after.cells.length (meanings part) := by
  induction arity generalizing cells store with
  | zero =>
    exact ⟨_, store, cells, rfl, .refl _ _ _ _, fun part => part.elim0⟩
  | succ arity ih =>
    obtain ⟨head, middle, between, ran, grows, denotes⟩ := (each 0).grows fits held
    obtain ⟨parts, after, others, next, later, rest⟩ :=
      ih (fun part => each part.succ) (fits.grows grows)
    refine ⟨Fin.cases head parts, after, others, ?_, ?_, ?_⟩
    · rw [Run.family, Run.bind_of_returned ran, Run.bind_of_returned next]
      rfl
    · rw [List.ofFn_succ]
      exact grows.trans later
    · intro part
      cases part using Fin.cases with
      | zero => exact denotes.mono later.frame.length later.agree
      | succ part => exact rest part

end Place

namespace Place

variable {place : Place} {cells others : Address → Meaning} {store after : Store}

/-- The place of the body of a recursive definition, whose handle means the definition. -/
def inside (place : Place) (name : Text) (knot : Address) (meaning : Meaning) : Place :=
  { place with
    scope := (name, knot) :: place.scope
    handles := Function.update place.handles name meaning }

/-- What fits a place goes on to fit it with one cell more. -/
theorem Fits.further (fits : place.Fits cells store) (meaning : Meaning)
    (length : after.cells.length = store.cells.length + 1)
    (names : ∀ name ∈ place.naming.known, after.find? name = store.find? name) :
    place.Fits (Function.update cells store.cells.length meaning) after := by
  have agree (cell : Address) (inside : cell < store.cells.length) :
      Function.update cells store.cells.length meaning cell = cells cell :=
    Function.update_of_ne (Nat.ne_of_lt inside) _ _
  exact
    { covered := fits.covered
      within := fun entry member => by
        rw [length]
        exact Nat.lt_succ_of_lt (fits.within entry member)
      handles := (Scope.meaning_congr fits.within agree).trans fits.handles
      names := fun name member => by
        obtain ⟨built, found, denotes⟩ := fits.names name member
        exact ⟨built, (names name (fits.covered name member)).trans found,
          denotes.mono (by omega) agree⟩ }

/-- In the opened store of a recursive definition, its place fits with the handle in its scope. -/
theorem Fits.opened (fits : place.Fits cells store) {exposure : Exposure} {name : Text}
    (fresh : exposure = .published → name ∉ place.naming.known) (meaning : Meaning) :
    (place.inside name store.cells.length meaning).Fits
      (Function.update cells store.cells.length meaning) (store.opened exposure name) := by
  have length : (store.opened exposure name).cells.length = store.cells.length + 1 := by
    simp [Store.cells_opened]
  have names (other : Text) (member : other ∈ place.naming.known) :
      (store.opened exposure name).find? other = store.find? other :=
    store.find?_opened fun published same => fresh published (same ▸ member)
  have wider := fits.further meaning length names
  exact
    { covered := wider.covered
      within := fun entry member => by
        rcases List.mem_cons.mp member with rfl | member
        · simp [length]
        · exact wider.within entry member
      handles := by
        rw [inside, Scope.meaning_cons, Function.update_self, wider.handles]
      names := wider.names }

end Place

/-- A shared grammar denotes what the last cell means. -/
theorem denotes_shared_update {cells : Address → Meaning} {address size : Nat} {meaning : Meaning}
    (length : size = address + 1) :
    (Grammar.shared address).Denotes (Function.update cells address meaning) size meaning := by
  have denotes : (Grammar.shared address).Denotes (Function.update cells address meaning) size
      (Function.update cells address meaning address) :=
    Grammar.denotes_shared (length ▸ Nat.lt_succ_self address)
  rwa [Function.update_self] at denotes

/-- A new cell with a meaning lets the store grow. -/
theorem Naming.grows_addCell (naming : Naming) {cells : Address → Meaning} {store : Store}
    {cell : Cell} {meaning : Meaning}
    (means : naming.CellMeans (Function.update cells store.cells.length meaning)
      (store.cells.length + 1) cell meaning) :
    naming.Grows cells store (Function.update cells store.cells.length meaning)
      (store.addCell cell) {store.cells.length} where
  frame := Store.frame_addCell (Nat.le_refl _) cell
  names _ _ := rfl
  agree _ inside := Function.update_of_ne (Nat.ne_of_lt inside) _ _
  means address other beyond found := by
    have inside : address < store.cells.length + 1 := by
      simpa [Store.addCell] using (List.getElem?_eq_some_iff.mp found).1
    obtain rfl : address = store.cells.length :=
      Nat.le_antisymm (Nat.le_of_lt_succ inside) beyond
    obtain rfl : cell = other := by simpa [Store.addCell] using found
    rw [Function.update_self]
    simpa [Store.addCell] using means
  owned address beyond inside := by
    have bound : address < store.cells.length + 1 := by simpa [Store.addCell] using inside
    exact .inl (AddressSet.mem_singleton.mpr (Nat.le_antisymm (Nat.le_of_lt_succ bound) beyond))

/-- A recursive definition lets the store grow when its body did in the opened store. -/
theorem Naming.Grows.close {naming : Naming} {cells others : Address → Meaning}
    {store after : Store} {exposure : Exposure} {name : Text} {built : Built}
    {meaning inner : Meaning}
    (grows : naming.Grows (Function.update cells store.cells.length meaning)
      (store.opened exposure name) others after built.owned)
    (unfolded : meaning = inner.deeper)
    (fresh : exposure = .published → name ∉ naming.known)
    (denotes : built.grammar.Denotes others after.cells.length inner) :
    naming.Grows cells store others (after.setCell store.cells.length (.holding built))
      {store.cells.length} := by
  have opened : (store.opened exposure name).cells.length = store.cells.length + 1 := by
    simp [Store.cells_opened]
  have length : (after.setCell store.cells.length (.holding built)).cells.length = after.cells.length := by
    simp [Store.setCell]
  have present : store.cells.length < after.cells.length := by
    have := grows.frame.length
    omega
  have within {address : Address} (inside : address < store.cells.length) :
      address < (store.opened exposure name).cells.length := by
    rw [opened]
    exact Nat.lt_succ_of_lt inside
  have further {address : Address} (different : address ≠ store.cells.length)
      (beyond : store.cells.length ≤ address) :
      (store.opened exposure name).cells.length ≤ address := by
    rw [opened]
    exact Nat.lt_of_le_of_ne beyond (Ne.symm different)
  have frame : Store.Frame (store.cells.length + 1) (store.opened exposure name) after :=
    opened ▸ grows.frame
  have kept {address : Address} (different : address ≠ store.cells.length) :
      (after.setCell store.cells.length (.holding built)).cells[address]? = after.cells[address]? := by
    simp [Store.setCell, Ne.symm different]
  have filled : (after.setCell store.cells.length (.holding built)).cells[store.cells.length]? =
      some (.holding built) := by
    simp [Store.setCell, present]
  refine ⟨frame.close _, ?_, ?_, ?_, ?_⟩
  · intro other member
    refine Eq.trans (grows.names other member) ?_
    exact store.find?_opened fun published same => fresh published (same ▸ member)
  · intro address inside
    rw [grows.agree address (within inside), Function.update_of_ne (Nat.ne_of_lt inside)]
  · intro address cell beyond found
    rw [length]
    by_cases same : address = store.cells.length
    · rw [same] at found ⊢
      rw [filled] at found
      obtain rfl := Option.some.inj found
      rw [grows.agree store.cells.length (by rw [opened]; exact Nat.lt_succ_self _),
        Function.update_self, unfolded]
      exact .holding denotes
    · rw [kept same] at found
      exact grows.means address cell (further same beyond) found
  · intro address beyond inside
    by_cases same : address = store.cells.length
    · exact .inl (AddressSet.mem_singleton.mpr same)
    · rw [length] at inside
      rcases grows.owned address (further same beyond) inside with root | ⟨owner, holder, holds, member⟩
      · exact .inr ⟨store.cells.length, built, filled, root⟩
      · refine .inr ⟨owner, holder, ?_, member⟩
        have different : owner ≠ store.cells.length := by
          rintro rfl
          simp [frame.unfinished] at holds
        rw [kept different, holds]

namespace Definition

/-- What a definition means at a place. -/
def meaningAt (definition : Definition) (place : Place) : Meaning :=
  definition.meaning place.naming.late place.eagers place.handles

/-- A definition is regular at a place for the names and handles that are there. -/
def RegularAt (definition : Definition) (place : Place) : Prop :=
  definition.Regular place.naming.known place.eager (place.scope.map (·.1))

section Places

variable {place : Place} {left right meaning : Meaning}

/-- The two marks are built first and the part between them last. -/
theorem builds_between {opening closing body : Definition}
    (opens : place.Builds (opening.build place.scope) left)
    (closes : place.Builds (closing.build place.scope) right)
    (builds : place.Builds (body.build place.scope) meaning) :
    place.Builds ((between opening closing body).build place.scope)
      (.discardThen left (.thenDiscard meaning right)) := by
  refine ⟨fun {cells store} fits held => ?_⟩
  obtain ⟨left, right, middle, between, others, first, second, grows, before, behind⟩ :=
    opens.pair closes fits held
  obtain ⟨inner, after, last, third, later, denotes⟩ := builds.grows (fits.grows grows) held
  refine ⟨.join .discardThen (fun _ _ => rfl) left (.join .thenDiscard (fun _ _ => rfl) inner right),
    after, last, ?_, ?_, (before.mono later.frame.length later.agree).discardThen
    (denotes.thenDiscard (behind.mono later.frame.length later.agree))⟩
  · rw [build, Run.bind_of_returned first, Run.bind_of_returned second, Run.bind_of_returned third]
    rfl
  · refine (grows.trans later).mono fun address member => ?_
    simp only [Built.join, AddressSet.mem_union] at member ⊢
    rcases member with (left | right) | inner
    · exact .inl left
    · exact .inr (.inr right)
    · exact .inr (.inl inner)

/-- The determinant is built first and the parts after it, in order. -/
theorem builds_dependent {arity : Nat} {determinant : Definition} {parts : Fin arity → Definition}
    {meanings : Fin arity → Meaning} {next : (Fin arity → Grammar) → Value → Grammar}
    (builds : place.Builds (determinant.build place.scope) meaning)
    (each : ∀ part, place.Builds ((parts part).build place.scope) (meanings part))
    (parametric : Parametric next) (extract : Value → Value) :
    place.Builds ((dependent determinant parts next extract).build place.scope)
      (.dependent meaning
        (fun value => (next Grammar.place value).behaviour
          ((Meaning.interpretation fun _ => .bottom).withParts meanings)) extract) := by
  refine ⟨fun {cells store} fits held => ?_⟩
  obtain ⟨first, middle, between, ran, grows, denotes⟩ := builds.grows fits held
  obtain ⟨built, after, others, family, later, rest⟩ :=
    Place.builds_family each (fits.grows grows) held
  refine ⟨.dependent first built next extract, after, others, ?_, grows.trans later,
    (denotes.mono later.frame.length later.agree).dependent rest parametric extract _⟩
  rw [build, Run.bind_of_returned ran, Run.bind_of_returned family]
  rfl

/-- A deferred definition is a cell that waits for its factory. -/
theorem builds_deferred {failures : Nat} {message : Text} {body : Definition}
    (regular : (deferred failures message body).RegularAt place) :
    place.Builds ((deferred failures message body).build place.scope)
      ((deferred failures message body).meaningAt place) := by
  obtain ⟨ready, inside⟩ := regular
  refine ⟨fun {cells store} fits held => ?_⟩
  let factory : Factory := ⟨failures, message, place.scope, body⟩
  let others := Function.update cells store.cells.length
    ((deferred failures message body).meaningAt place)
  have length : (store.addCell (.pending factory)).cells.length = store.cells.length + 1 := by
    simp [Store.addCell]
  have wider : place.Fits others (store.addCell (.pending factory)) :=
    fits.further _ length fun _ _ => rfl
  have means : place.naming.CellMeans others (store.cells.length + 1) (.pending factory)
      (body.meaning place.naming.late place.naming.late (place.scope.meaning others)).deeper :=
    .pending ready (length ▸ wider.within) inside
  rw [wider.handles] at means
  refine ⟨.shared store.cells.length, _, others, rfl, Naming.grows_addCell _ means, ?_⟩
  exact denotes_shared_update length

/-- A recursive definition is a cell that holds its body, built where the handle means the definition. -/
theorem builds_recursive {exposure : Exposure} {name : Text} {body : Definition}
    (regular : (recursive exposure name body).RegularAt place)
    (builds : ∀ {inner : Place}, body.RegularAt inner →
      inner.Builds (body.build inner.scope) (body.meaningAt inner)) :
    place.Builds ((recursive exposure name body).build place.scope)
      ((recursive exposure name body).meaningAt place) := by
  obtain ⟨late, fresh, inside⟩ := regular
  refine ⟨fun {cells store} fits held => ?_⟩
  let meaning := (recursive exposure name body).meaningAt place
  have unfolded : meaning = (body.meaningAt (place.inside name store.cells.length meaning)).deeper :=
    meaning_recursive inside
  have bodyRegular : body.RegularAt (place.inside name store.cells.length meaning) := inside
  obtain ⟨built, after, others, ran, grows, denotes⟩ :=
    (builds bodyRegular).grows (fits.opened fresh meaning) held
  have present : store.cells.length < after.cells.length :=
    Nat.lt_of_lt_of_le (by simp [Store.cells_opened]) grows.frame.length
  have knot : others store.cells.length = meaning := by
    rw [grows.agree _ (by simp [Store.cells_opened]), Function.update_self]
  refine ⟨.shared store.cells.length, after.setCell store.cells.length (.holding built), others,
    ?_, grows.close unfolded fresh denotes, ?_⟩
  · rw [build_recursive_apply late]
    rw [show body.build ((name, store.cells.length) :: place.scope) held
      (store.opened exposure name) = _ from ran]
  · have shared : (Grammar.shared store.cells.length).Denotes others
        (after.setCell store.cells.length (.holding built)).cells.length
        (others store.cells.length) :=
      Grammar.denotes_shared (by simpa [Store.setCell] using present)
    rwa [knot] at shared

/-- A name is built from the table. -/
theorem builds_named {name : Text} (known : name ∈ place.eager) :
    place.Builds ((named name).build place.scope) (place.eagers name) := by
  refine ⟨fun {cells store} fits held => ?_⟩
  obtain ⟨built, found, denotes⟩ := fits.names name known
  refine ⟨built, store, cells, ?_, .refl _ _ _ _, denotes⟩
  rw [build, Run.bind_of_returned (show Run.current held store = (.returned store, store) from rfl),
    found]
  rfl

/-- A handle refers to the cell that the scope gives to its name. -/
theorem builds_self {name : Text} (bound : name ∈ place.scope.map (·.1)) :
    place.Builds ((self name).build place.scope) (place.handles name) := by
  refine ⟨fun {cells store} fits held => ?_⟩
  obtain ⟨knot, found⟩ : ∃ knot, place.scope.lookup name = some knot := by
    obtain ⟨entry, member, rfl⟩ := List.mem_map.mp bound
    exact Option.isSome_iff_exists.mp (by simpa [List.lookup_isSome_iff] using ⟨_, member⟩)
  have meaning : cells knot = place.handles name := by
    rw [← fits.handles, Scope.meaning, found]
  refine ⟨.handle knot, store, cells, ?_, .refl _ _ _ _, ?_⟩
  · rw [build, found]
    rfl
  · rw [← meaning]
    exact Grammar.denotes_handle (fits.within _ (Scope.mem_of_lookup found))

end Places

/-- A regular definition always builds. The grammar denotes what the definition means, and so do the
cells that come with it. -/
theorem build_builds {definition : Definition} {place : Place}
    (regular : definition.RegularAt place) :
    place.Builds (definition.build place.scope) (definition.meaningAt place) := by
  induction definition generalizing place with
  | primitive base => exact Place.builds_pure fun _ => Grammar.denotes_primitive base
  | adapt prism body ih => exact (ih regular).wrap fun body => body.adapt prism
  | sequence first second firstIh secondIh =>
    exact (firstIh regular.1).join (secondIh regular.2) .sequence
  | thenDiscard body mark bodyIh markIh =>
    exact (bodyIh regular.1).join (markIh regular.2) .thenDiscard
  | discardThen mark body markIh bodyIh =>
    exact (markIh regular.1).join (bodyIh regular.2) .discardThen
  | between opening closing body openingIh closingIh bodyIh =>
    exact builds_between (openingIh regular.1) (closingIh regular.2.1) (bodyIh regular.2.2)
  | choice first second firstIh secondIh =>
    exact (firstIh regular.1).join (secondIh regular.2) .choice
  | many body ih => exact (ih regular).wrap .many
  | many1 body ih => exact (ih regular).wrap .many1
  | replicate count body capacity ih => exact (ih regular).wrap (.replicate capacity count)
  | dependent determinant parts next extract determinantIh partsIh =>
    exact builds_dependent (determinantIh regular.1) (fun part => partsIh part (regular.2.1 part))
      regular.2.2 extract
  | withDefault default body ih => exact (ih regular).wrap (.withDefault default)
  | opt body ih => exact (ih regular).wrap .opt
  | traced name body ih => exact (ih regular).wrap (.traced name)
  | deferred failures message body ih => exact builds_deferred regular
  | recursive exposure name body ih => exact builds_recursive regular ih
  | named name => exact builds_named regular
  | self name => exact builds_self regular

end Definition

end TwoWayGrammar
