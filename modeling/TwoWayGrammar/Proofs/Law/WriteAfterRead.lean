import TwoWayGrammar.Proofs.Grammar.Parentheses
import TwoWayGrammar.Proofs.Law.Restoring

namespace TwoWayGrammar.Grammar

variable {held : AddressSet} {store : Store} {fuel : Nat} {cell : Address}
  {body mark : Grammar}

/-- Whenever the cell is entered from now on, its grammar meets the condition. -/
def Enters (held : AddressSet) (entered : Store → Grammar → Prop) (store : Store) (cell : Address) :
    Prop :=
  store.FromNowOn held fun wider now => ∀ ⦃body after⦄,
    Run.resolve cell wider now = (.returned body, after) → entered after body

/-- Lawfulness by structure, given the condition on the grammars of cells. A prism gives back what it
accepts, a discarded part is the unit, the choice of a dependent grammar is found again in its result,
and no input is read as a default. A handle is used while its definition is kept. -/
def LawfulWith (held : AddressSet) (entered : Store → Grammar → Prop) (store : Store) :
    Grammar → Prop
  | primitive _ => True
  | adapt prism body => prism.Exact ∧ LawfulWith held entered store body
  | sequence first second =>
    LawfulWith held entered store first ∧ LawfulWith held entered store second
  | thenDiscard body mark =>
    LawfulWith held entered store body ∧ LawfulWith held entered store mark ∧
      Yields held store mark (· = .unit)
  | discardThen mark body =>
    LawfulWith held entered store mark ∧ Yields held store mark (· = .unit) ∧
      LawfulWith held entered store body
  | choice first second =>
    LawfulWith held entered store first ∧ LawfulWith held entered store second
  | many body => LawfulWith held entered store body
  | replicate _ _ body => LawfulWith held entered store body
  | dependent determinant next extract captured =>
    LawfulWith held entered store determinant ∧ Yields held store determinant fun value =>
      (next value).owned ⊆ captured ∧ LawfulWith held entered store (next value) ∧
        Yields held store (next value) (extract · = value)
  | withDefault default body =>
    LawfulWith held entered store body ∧ Yields held store body (· ≠ default)
  | opt body => LawfulWith held entered store body
  | traced _ body => LawfulWith held entered store body
  | shared cell => Enters held entered store cell
  | handle cell => Store.Keeps held store cell ∧ Enters held entered store cell

/-- Lawfulness to a depth of nested cells. -/
def LawfulTo (held : AddressSet) : (depth : Nat) → Store → Grammar → Prop
  | 0 => LawfulWith held fun _ _ => True
  | depth + 1 => LawfulWith held (LawfulTo held depth)

/-- A grammar is lawful when it is lawful to every depth. -/
def Lawful (held : AddressSet) (store : Store) (grammar : Grammar) : Prop :=
  ∀ depth, LawfulTo held depth store grammar

theorem lawfulWith_letters {entered : Store → Grammar → Prop} :
    LawfulWith held entered store letters :=
  ⟨Prism.exact_chars, trivial⟩

theorem LawfulWith.many1 {entered : Store → Grammar → Prop}
    (lawful : LawfulWith held entered store body) : LawfulWith held entered store body.many1 :=
  ⟨Prism.exact_pairAsNonEmpty, lawful, lawful⟩

theorem lawfulWith_digits {entered : Store → Grammar → Prop} :
    LawfulWith held entered store digits :=
  ⟨Prism.exact_digitText, LawfulWith.many1 trivial⟩

/-- The marks around a body are units. -/
theorem LawfulWith.between {entered : Store → Grammar → Prop} {opening closing : Grammar}
    (opens : LawfulWith held entered store opening)
    (openingUnit : Yields held store opening (· = .unit))
    (closes : LawfulWith held entered store closing)
    (closingUnit : Yields held store closing (· = .unit))
    (lawful : LawfulWith held entered store body) :
    LawfulWith held entered store (Grammar.between opening closing body) :=
  ⟨opens, openingUnit, lawful, closes, closingUnit⟩

/-- A primitive that writes the unit reads nothing else. -/
theorem yields_unit {base : Primitive} {written : Input} (writes : base.write? .unit [] = some written) :
    Yields held store (primitive base) (· = .unit) := by
  intro now reached wider within fuel input value rest after returned
  rw [read_primitive] at returned
  have found := (Run.returned_of_pure returned).1
  cases base with
  | element => simp [Primitive.write?] at writes
  | satisfy test => simp [Primitive.write?] at writes
  | literal expected =>
    cases input with
    | nil => simp [Primitive.read] at found
    | cons atom input =>
      simp only [Primitive.read] at found
      split at found
      · exact (Match.success.inj found).1.symm
      · simp at found
  | keyword word =>
    simp only [Primitive.read] at found
    split at found
    · exact (Match.success.inj found).1.symm
    · simp at found
  | eof =>
    cases input with
    | nil => exact (Match.success.inj found).1.symm
    | cons atom input => simp [Primitive.read] at found

/-- A grammar that is lawful whatever its cells hold is lawful. -/
theorem lawful_of_lawfulWith (lawful : ∀ entered, LawfulWith held entered store body) :
    Lawful held store body := by
  intro depth
  cases depth with
  | zero => exact lawful _
  | succ depth => exact lawful _

/-- A cell is lawful when every grammar is that it gives from now on. -/
theorem lawful_shared (enters : Enters held (Lawful held) store cell) :
    Lawful held store (shared cell) := by
  intro depth
  cases depth with
  | zero => exact fun _ _ _ _ _ _ _ => trivial
  | succ depth =>
    exact fun _ reached _ within _ _ resolved => enters reached within resolved depth

/-- A deferred definition that is kept is lawful when everything is that its factory builds. -/
theorem lawful_deferred {factory : Factory} (pending : store.cells[cell]? = some (.pending factory))
    (keeps : Store.Keeps held store cell)
    (lawful : ∀ built, factory.Fills (.holding built) → ∀ now, Store.Later held store now →
      Lawful held now built.grammar) :
    Lawful held store (shared cell) := by
  refine lawful_shared fun now reached wider within body after resolved => ?_
  have later := reached.trans ((Run.evolves_resolve cell).later within resolved)
  obtain ⟨built, holds, rfl⟩ := Run.holds_of_resolve within (keeps.later reached) resolved
  obtain ⟨left, found, fills | gone⟩ := later.deferredTo pending
  · obtain rfl : Cell.holding built = left := Option.some.inj (holds.symm.trans found)
    exact lawful built fills after later
  · exact absurd (gone ▸ found) (keeps after later)

/-- A recursive definition that is kept is lawful when its body is, given that its handle is. -/
theorem lawful_recursive {built : Built} (holds : store.cells[cell]? = some (.holding built))
    (keeps : Store.Keeps held store cell)
    (lawful : ∀ now, Store.Later held store now → ∀ depth, LawfulTo held depth now (handle cell) →
      LawfulTo held depth now built.grammar) :
    Lawful held store (shared cell) := by
  have handles : ∀ depth now, Store.Later held store now → LawfulTo held depth now (handle cell) := by
    intro depth
    induction depth with
    | zero =>
      intro now reached
      exact ⟨keeps.later reached, fun _ _ _ _ _ _ _ => trivial⟩
    | succ depth ih =>
      intro now reached
      refine ⟨keeps.later reached, ?_⟩
      intro next further wider within body after resolved
      rw [Run.resolve_of_holding (keeps.holding (reached.trans further) holds)] at resolved
      obtain ⟨rfl, rfl⟩ : built.grammar = body ∧ next = after := by simpa using resolved
      exact lawful next (reached.trans further) depth (ih next (reached.trans further))
  intro depth
  have handle := handles depth store (.refl held store)
  cases depth with
  | zero => exact handle.2
  | succ depth => exact handle.2

/-- A kept cell is restored when its grammar is restored one level deeper. -/
theorem restores_cell {entered : Store → Grammar → Prop} (quiet : store.Quiet)
    (nested : ∀ next : Store, next.Quiet → ∀ body, Store.Secured held next body.owned → entered next body →
      Run.Restores held next (body.readNested fuel) (body.writeNested fuel))
    (keeps : ∀ now, Store.Later held store now → now.Live cell → Store.Keeps held now cell)
    (enters : Enters held entered store cell) : Restores held store fuel (shared cell) := by
  have reading : (shared cell).read fuel =
      fun input => Run.resolve cell >>= fun body => body.readNested fuel input :=
    funext fun input => read_shared fuel input cell
  have writing : (shared cell).write fuel =
      fun value rest => Run.resolve cell >>= fun body => body.writeNested fuel value rest :=
    funext fun value => funext fun rest => write_shared fuel rest cell value
  rw [Restores, reading, writing]
  refine Run.Restores.resolve (readNested_evolves held fuel) keeps ?_
  intro now reached wider within built middle resolved holds kept
  have step := (Run.evolves_resolve cell).later within resolved
  exact nested middle ((reached.trans step).quiet quiet) built.grammar
    (Store.secured_of_holding holds kept) (enters reached within resolved)

/-- A handle holds its cell on both ways. -/
theorem Restores.handle (restores : Restores held store fuel (shared cell)) :
    Restores held store fuel (Grammar.handle cell) := by
  have reading : (Grammar.handle cell).read fuel =
      fun input => Run.holding {cell} ((shared cell).read fuel input) :=
    funext fun input => read_handle fuel input cell
  have writing : (Grammar.handle cell).write fuel =
      fun value rest => Run.holding {cell} ((shared cell).write fuel value rest) :=
    funext fun value => funext fun rest => write_handle fuel rest cell value
  rw [Restores, reading, writing]
  exact Run.Restores.holding restores {cell}

/-- Every combinator restores an input when its parts do, under the conditions of lawfulness. -/
theorem restores_of_lawfulWith {entered : Store → Grammar → Prop} (quiet : store.Quiet)
    (nested : ∀ next : Store, next.Quiet → ∀ body, Store.Secured held next body.owned → entered next body →
      Run.Restores held next (body.readNested fuel) (body.writeNested fuel))
    (grammar : Grammar) (secured : Store.Secured held store grammar.owned)
    (lawful : LawfulWith held entered store grammar) : Restores held store fuel grammar := by
  induction grammar with
  | primitive base => exact restores_primitive base
  | adapt prism body ih => exact (ih secured lawful.2).adapt lawful.1
  | sequence first second firstIh secondIh =>
    exact (firstIh secured.left lawful.1).sequence (secondIh secured.right lawful.2)
  | thenDiscard body mark bodyIh markIh =>
    exact (bodyIh secured.left lawful.1).thenDiscard
      (markIh secured.right lawful.2.1) lawful.2.2
  | discardThen mark body markIh bodyIh =>
    exact (markIh secured.left lawful.1).discardThen lawful.2.1
      (bodyIh secured.right lawful.2.2)
  | choice first second firstIh secondIh =>
    exact (firstIh secured.left lawful.1).choice (secondIh secured.right lawful.2)
  | many body ih => exact (ih secured lawful).many
  | replicate capacity count body ih => exact (ih secured lawful).replicate capacity count
  | dependent determinant next extract captured determinantIh nextIh =>
    refine (determinantIh secured.left lawful.1).dependent ?_
    intro now reached wider within fuel input value rest after found
    obtain ⟨owned, chosen, extracts⟩ := lawful.2 reached within found
    exact ⟨nextIh value (fun address member => secured.right address (owned address member))
      chosen, extracts⟩
  | withDefault default body ih => exact (ih secured lawful.1).withDefault lawful.2
  | opt body ih => exact (ih secured lawful).opt
  | traced name body ih => exact (ih secured lawful).traced name quiet
  | shared cell =>
    refine restores_cell quiet nested (fun now reached live => ?_) lawful
    exact ((secured cell (AddressSet.mem_singleton.mpr rfl)).later reached).keeps live
  | handle cell =>
    exact (restores_cell quiet nested (fun now reached _ => lawful.1.later reached) lawful.2).handle

/-- A lawful grammar restores an input with any fuel. Each level of cells spends one unit of fuel and
one unit of depth. -/
theorem restores_of_lawfulTo (quiet : store.Quiet) (secured : Store.Secured held store body.owned)
    (lawful : LawfulTo held fuel store body) : Restores held store fuel body := by
  induction fuel generalizing store body with
  | zero =>
    refine restores_of_lawfulWith quiet ?_ body secured lawful
    intro next _ inner _ _ now _ wider _ input value rest after found
    simp [readNested, Run.diverge] at found
  | succ fuel ih => exact restores_of_lawfulWith quiet (fun _ calm _ => ih calm) body secured lawful

/-- Complete parsing succeeds when reading has left nothing. -/
theorem parseAll_of_read {input rest : Input} {value : Value} {after : Store}
    (returned : body.read fuel input held store = (.returned (.success value rest), after)) :
    body.parseAll fuel input held store =
      (.returned (if rest = [] then some value else none), after) := by
  have whole : body.complete.read fuel input held store =
      Run.onSuccess (eof.read fuel rest) (fun _ last => pure (.success value last)) held after := by
    rw [complete, read_thenDiscard, Run.onSuccess_of_success returned]
  rw [read_primitive] at whole
  cases rest with
  | nil => exact Run.bind_of_returned whole
  | cons atom rest => exact Run.bind_of_returned whole

/-- Complete parsing that found a value has read the whole input. -/
theorem read_of_parseAll {input : Input} {value : Value} {after : Store}
    (parsed : body.parseAll fuel input held store = (.returned (some value), after)) :
    body.read fuel input held store = (.returned (.success value []), after) := by
  obtain ⟨outcome, close, found, shown⟩ := Run.returned_of_bind parsed
  obtain ⟨some, rfl⟩ := Run.returned_of_pure shown
  cases outcome with
  | failure rest => simp [Match.value?] at some
  | success whole ending =>
    obtain rfl : whole = value := by simpa [Match.value?] using some
    rw [complete, read_thenDiscard] at found
    obtain ⟨content, between, middle, first, found⟩ := Run.success_of_onSuccess found
    obtain ⟨mark, final, last, ended, found⟩ := Run.success_of_onSuccess found
    obtain ⟨rfl, rfl, rfl⟩ := Run.success_of_pure found
    rw [read_primitive] at ended
    obtain ⟨same, rfl⟩ := Run.returned_of_pure ended
    cases between with
    | nil => exact first
    | cons atom input => simp [Primitive.read] at same

/-- A lawful grammar over a log that refuses nothing writes what it has read back as the input it was
read from, and prints what it has parsed completely as the whole input. -/
theorem write_of_read_of_lawful {grammar : Grammar} (quiet : store.Quiet)
    (owned : grammar.owned ⊆ held) (lawful : Lawful held store grammar) :
    (∀ fuel input value rest after,
      grammar.read fuel input held store = (.returned (.success value rest), after) →
        ∀ last, Store.Later held after last →
          ∃ final, grammar.write fuel value rest held last = (.returned input, final)) ∧
    ∀ fuel input value after,
      grammar.parseAll fuel input held store = (.returned (some value), after) →
        ∀ last, Store.Later held after last →
          ∃ final, grammar.print fuel value held last = (.returned input, final) := by
  have restores (fuel : Nat) : Restores held store fuel grammar :=
    restores_of_lawfulTo quiet (Store.secured_of_held owned) (lawful fuel)
  have within : held ⊆ held := AddressSet.Subset.refl held
  constructor
  · intro fuel input value rest after found last later
    exact restores fuel (.refl held store) within found later within
  · intro fuel input value after parsed last later
    exact restores fuel (.refl held store) within (read_of_parseAll parsed) later within

theorem lawful_parentheses : Lawful {0} parenthesesStore (shared 0) := by
  refine lawful_recursive rfl keeps_parentheses ?_
  intro now reached depth handle
  have marks {entered : Store → Grammar → Prop}
      (item : LawfulWith {0} entered now (Grammar.handle 0)) :
      LawfulWith {0} entered now (parentheses 0) :=
    ⟨Prism.exact_listAsNode, .between trivial (yields_unit rfl) trivial (yields_unit rfl) item⟩
  cases depth with
  | zero => exact marks handle
  | succ depth => exact marks handle

/-- A store with letters and digits behind them, which are not built yet. -/
def deferredStore : Store :=
  (Store.new .unlimited).addCell (.pending ⟨0, [], [], .sequence .letters .digits⟩)

theorem lawful_deferredStore : Lawful {0} deferredStore (shared 0) := by
  refine lawful_deferred rfl
    (Store.keeps_of_held (AddressSet.mem_singleton.mpr rfl) ⟨_, rfl, by simp⟩) ?_
  intro built fills now reached
  cases fills with
  | holding returned =>
    obtain ⟨same, -⟩ := Prod.mk.inj returned
    obtain rfl := Outcome.returned.inj same
    exact lawful_of_lawfulWith fun entered => ⟨lawfulWith_letters, lawfulWith_digits⟩

/-- Nested parentheses are read, written back and printed back. Letters and digits are built by their
first reading and then written back. -/
theorem write_of_read_recursive_and_deferred :
    ((∃ final, (shared 0).write 3 (.node [.node []]) [.char '!'] {0} parenthesesStore =
      (.returned ("(())!".toList.map .char), final)) ∧
    ∃ final, (shared 0).print 3 (.node [.node []]) {0} parenthesesStore =
      (.returned ("(())".toList.map .char), final)) ∧
    ∃ middle final, (shared 0).read 2 ("ab12!".toList.map .char) {0} deferredStore =
        (.returned (.success (.pair (.text "ab".toList) (.text "12".toList)) [.char '!']), middle) ∧
      (shared 0).write 2 (.pair (.text "ab".toList) (.text "12".toList)) [.char '!'] {0} middle =
        (.returned ("ab12!".toList.map .char), final) := by
  have quiet : parenthesesStore.Quiet := rfl
  have fresh : deferredStore.Quiet := rfl
  obtain ⟨written, printed⟩ :=
    write_of_read_of_lawful quiet (AddressSet.Subset.refl {0}) lawful_parentheses
  refine ⟨⟨written 3 ("(())!".toList.map .char) _ _ _ rfl _ (.refl _ _),
    printed 3 ("(())".toList.map .char) _ _ rfl _ (.refl _ _)⟩, ?_⟩
  obtain ⟨again, -⟩ :=
    write_of_read_of_lawful fresh (AddressSet.Subset.refl {0}) lawful_deferredStore
  obtain ⟨final, wrote⟩ := again 2 ("ab12!".toList.map .char) _ _ _ rfl _ (.refl _ _)
  exact ⟨_, final, rfl, wrote⟩

end TwoWayGrammar.Grammar
