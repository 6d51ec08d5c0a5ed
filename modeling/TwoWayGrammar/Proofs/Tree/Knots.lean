import TwoWayGrammar.Proofs.Tree.Reading
import TwoWayGrammar.Session.Step

namespace TwoWayGrammar

/-- A tree of built items. -/
def Built.treesOf (item : Built) : Built :=
  .wrap (.adapt Prism.listAsNode) (Grammar.owned_adapt Prism.listAsNode)
    (.join .discardThen Grammar.owned_discardThen (.primitive (.literal (.char '(')))
      (.join .thenDiscard Grammar.owned_thenDiscard (.wrap .many Grammar.owned_many item)
        (.primitive (.literal (.char ')')))))

theorem Built.owned_treesOf (item : Built) : item.treesOf.owned = item.owned := by
  rw [item.treesOf.owned_eq, item.owned_eq]
  exact Grammar.owned_treesOf item.grammar

theorem Built.mem_owned_treesOf (cell : Address) : cell ∈ (treesOf (.shared cell)).owned := by
  rw [owned_treesOf]
  exact AddressSet.mem_singleton.mpr rfl

namespace Definition

/-- A tree is a list of items between parentheses. -/
def treesOf (item : Definition) : Definition :=
  adapt Prism.listAsNode (between (primitive (.literal (.char '('))) (primitive (.literal (.char ')')))
    (many item))

/-- The items of a recursive tree are handles to it. -/
def fixedTree (name : Text) : Definition := recursive .hidden name (treesOf (self name))

/-- The items of a lazy tree are looked up under its name, when they are first used. -/
def lazyTree (name : Text) : Definition := treesOf (lazy (named name))

/-- The items of an unfolded tree are unfolded one level less, when they are first used. -/
def unfoldedTree (bottom : Definition) : (depth : Nat) → Definition
  | 0 => bottom
  | depth + 1 => treesOf (lazy (unfoldedTree bottom depth))

/-- Reading with the definition, built in the store for this use, returns the match. -/
def Matches (definition : Definition) (held : AddressSet) (store : Store) (input : Input)
    (found : Match Value) : Prop :=
  ∃ after enough, ∀ fuel, enough ≤ fuel →
    definition.use (fun grammar => grammar.read fuel input) held store = (.returned found, after)

/-- Writing with the definition, built in the store for this use, returns the text. -/
def Constructs (definition : Definition) (held : AddressSet) (store : Store) (value : Value)
    (rest text : Input) : Prop :=
  ∃ after enough, ∀ fuel, enough ≤ fuel →
    definition.use (fun grammar => grammar.write fuel value rest) held store =
      (.returned text, after)

variable {definition : Definition} {held : AddressSet} {store middle after : Store} {built : Built}
  {input rest text other : Input} {value : Value} {found foundOther : Match Value}

/-- Runs that come to a result once they have enough fuel come to one result only. -/
theorem result_unique {α : Type} {runs : Nat → Run α} {result otherResult : α} {last : Store}
    (returned : ∃ enough, ∀ fuel, enough ≤ fuel → runs fuel held store = (.returned result, after))
    (returnedOther : ∃ enough, ∀ fuel, enough ≤ fuel →
      runs fuel held store = (.returned otherResult, last)) : result = otherResult := by
  obtain ⟨enough, ran⟩ := returned
  obtain ⟨enoughOther, ranOther⟩ := returnedOther
  have same := (ran _ (Nat.le_max_left enough enoughOther)).symm.trans
    (ranOther _ (Nat.le_max_right enough enoughOther))
  exact Outcome.returned.inj (Prod.mk.inj same).1

/-- There is one match only. -/
theorem Matches.unique (first : definition.Matches held store input found)
    (second : definition.Matches held store input foundOther) : found = foundOther := by
  obtain ⟨_, returned⟩ := first
  obtain ⟨_, returnedOther⟩ := second
  exact result_unique returned returnedOther

theorem Constructs.unique (first : definition.Constructs held store value rest text)
    (second : definition.Constructs held store value rest other) : text = other := by
  obtain ⟨_, returned⟩ := first
  obtain ⟨_, returnedOther⟩ := second
  exact result_unique returned returnedOther

/-- The store after a use is collected if there was a deferred build. -/
theorem use_of_returned {α : Type} {next : Grammar → Run α} {result : α}
    (builds : definition.build [] held store = (.returned built, middle))
    (returned : next built.grammar (held ∪ built.owned) (middle.collect (held ∪ built.owned)) =
      (.returned result, after)) :
    definition.use next held store =
      (.returned result, if after.builds = middle.builds then after else after.collect held) := by
  rw [use, Run.bind_of_returned builds, Run.holding]
  have ran : (Run.settle >>= fun _ => next built.grammar) (held ∪ built.owned) middle =
      (.returned result, after) := (Run.bind_of_returned rfl).trans returned
  rw [ran]

theorem matches_of_finds (builds : definition.build [] held store = (.returned built, middle))
    (finds : Grammar.Finds (held ∪ built.owned) (middle.collect (held ∪ built.owned)) built.grammar
      input found after) : definition.Matches held store input found := by
  obtain ⟨enough, returned⟩ := finds.enough
  exact ⟨_, enough, fun fuel more => use_of_returned builds (returned fuel more)⟩

theorem constructs_of_puts (builds : definition.build [] held store = (.returned built, middle))
    (puts : Grammar.Puts (held ∪ built.owned) (middle.collect (held ∪ built.owned)) built.grammar
      value rest text after) : definition.Constructs held store value rest text := by
  obtain ⟨enough, returned⟩ := puts.enough
  exact ⟨_, enough, fun fuel more => use_of_returned builds (returned fuel more)⟩

/-- Trees of items are built from the items. -/
theorem build_treesOf {item : Definition} {scope : Scope}
    (builds : item.build scope held store = (.returned built, middle)) :
    (treesOf item).build scope held store = (.returned built.treesOf, middle) := by
  have combined : (treesOf item).build scope =
      item.build scope >>= fun built => pure built.treesOf := by
    simp only [treesOf, build, pure_bind, bind_assoc]
    rfl
  rw [combined, Run.bind_of_returned builds]
  rfl

theorem build_lazy (body : Definition) (scope : Scope) (held : AddressSet) (store : Store) :
    (lazy body).build scope held store =
      (.returned (.shared store.cells.length), store.addCell (.pending ⟨0, [], scope, body⟩)) := rfl

/-- A recursive tree gets the next cell, which holds trees of handles to it. -/
theorem build_fixedTree (name : Text) (scope : Scope) (held : AddressSet) (store : Store) :
    (fixedTree name).build scope held store =
      (.returned (.shared store.cells.length),
        (store.addCell .unfinished).setCell store.cells.length
          (.holding (Built.treesOf (.handle store.cells.length)))) := by
  let knot := store.cells.length
  have found : (self name).build ((name, knot) :: scope) held (store.addCell .unfinished) =
      (.returned (.handle knot), store.addCell .unfinished) := by
    have looked : Run.orStop (((name, knot) :: scope).lookup name) (.unknownName name) held
        (store.addCell .unfinished) = (.returned knot, store.addCell .unfinished) := by
      simp [Run.orStop]
    exact Run.bind_of_returned looked
  have filled : ((treesOf (self name)).build ((name, knot) :: scope) >>= fun built =>
      Run.modify fun store => store.setCell knot (.holding built)) held (store.addCell .unfinished) =
        (.returned (), (store.addCell .unfinished).setCell knot (.holding (.treesOf (.handle knot)))) :=
    Run.bind_of_returned (build_treesOf found)
  rw [fixedTree, build_recursive, Run.bind_of_returned (show Run.newCell .unfinished held store =
    (.returned knot, store.addCell .unfinished) from rfl)]
  simp only [reduceCtorEq, if_false, pure_bind]
  refine Run.bind_of_returned (show Run.cleaningUp _ _ held (store.addCell .unfinished) =
    (.returned (), _) from ?_)
  rw [Run.cleaningUp, filled]

end Definition

namespace Tree

open Grammar

variable {held : AddressSet} {cell : Address}

/-- Handles to a cell that holds trees of them open at every depth. -/
def FixedAt (cell : Address) (_depth : Nat) (store : Store) (item : Grammar) : Prop :=
  item = handle cell ∧ store.cells[cell]? = some (.holding (Built.treesOf (.handle cell)))

theorem fixed_arrangement (member : cell ∈ held) : Arrangement held (FixedAt cell) where
  collect wider store within depth item opened :=
    ⟨opened.1, (Store.cells_collect_of_held (within cell member)).trans opened.2⟩
  enter wider depth store item within opened := by
    obtain ⟨rfl, holds⟩ := opened
    exact ⟨handle cell, wider ∪ {cell}, store,
      AddressSet.Subset.trans within (AddressSet.subset_union_left wider {cell}),
      leadsTo_handle (Run.resolve_of_holding holds), ⟨rfl, holds⟩, .refl _ store⟩

end Tree

namespace Store

variable {store : Store} {held : AddressSet} {name : Text} {cell address : Address} {built : Built}

/-- A collection keeps what an entry of the table owns, because it does not change the table. -/
theorem cells_collect_of_entry (found : store.find? name = some built)
    (member : address ∈ built.owned) :
    (store.collect held).cells[address]? = store.cells[address]? := by
  have still : (store.collect held).find? name = some built := by
    rw [find?, table_collect]
    exact found
  exact cells_collect_of_still_owned (mem_owned_of_entry still member)

/-- A name is tied lazily when its trees have items in a cell that holds these trees or looks the name up
at its first use. -/
structure TiedLazily (store : Store) (name : Text) (cell : Address) : Prop where
  entry : store.find? name = some (.treesOf (.shared cell))
  cell : (∃ scope, store.cells[cell]? = some (.pending ⟨0, [], scope, .named name⟩)) ∨
    store.cells[cell]? = some (.holding (.treesOf (.shared cell)))

/-- The table owns the cell, so no collection releases it. -/
theorem TiedLazily.collect (tied : store.TiedLazily name cell) (held : AddressSet) :
    (store.collect held).TiedLazily name cell where
  entry := by
    rw [find?, table_collect]
    exact tied.entry
  cell := by
    rw [cells_collect_of_entry tied.entry (Built.mem_owned_treesOf cell)]
    exact tied.cell

/-- The first use of the cell finds its name in the table. -/
theorem TiedLazily.resolve (tied : store.TiedLazily name cell) (held : AddressSet) :
    ∃ middle, Run.resolve cell held store =
        (.returned (Grammar.treesOf (.shared cell)), middle) ∧ middle.TiedLazily name cell := by
  rcases tied.cell with ⟨scope, pending⟩ | holds
  · let counted : Store := { store with builds := store.builds + 1 }
    have looked : (Definition.named name).build scope held counted =
        (.returned (.treesOf (.shared cell)), counted) := by
      change Run.orStop (store.find? name) (.unknownName name) held counted = _
      rw [tied.entry]
      rfl
    let filled := counted.setCell cell (.holding (.treesOf (.shared cell)))
    have fills : filled.TiedLazily name cell := by
      refine ⟨tied.entry, .inr ?_⟩
      have present : cell < store.cells.length := (List.getElem?_eq_some_iff.mp pending).1
      simp [filled, counted, setCell, present]
    refine ⟨filled.collect held, ?_, fills.collect held⟩
    rw [Run.resolve_of_pending pending, Run.force_of_building rfl]
    exact Run.bind_of_returned looked
  · exact ⟨store, Run.resolve_of_holding holds, tied.entry, .inr holds⟩

end Store

namespace Tree

open Grammar

variable {held : AddressSet} {name : Text} {cell : Address}

/-- Items in a lazily tied cell open at every depth. -/
def LazyAt (name : Text) (cell : Address) (_depth : Nat) (store : Store) (item : Grammar) : Prop :=
  item = shared cell ∧ store.TiedLazily name cell

theorem lazy_arrangement (held : AddressSet) (name : Text) (cell : Address) :
    Arrangement held (LazyAt name cell) where
  collect wider store within depth item opened := ⟨opened.1, opened.2.collect wider⟩
  enter wider depth store item within opened := by
    obtain ⟨rfl, tied⟩ := opened
    obtain ⟨middle, resolved, kept⟩ := tied.resolve wider
    exact ⟨shared cell, wider, middle, within, leadsTo_shared resolved, ⟨rfl, kept⟩,
      fun _ _ opened => ⟨opened.1, kept⟩⟩

/-- A cell unfolds up to the depth when it waits for a tree unfolded that far, or holds trees of items in a
cell that unfolds one level less. -/
def Unfolds (bottom : Definition) : (depth : Nat) → Store → Address → Prop
  | 0, _, _ => True
  | depth + 1, store, cell =>
    (∃ scope, store.cells[cell]? =
      some (.pending ⟨0, [], scope, .unfoldedTree bottom (depth + 1)⟩)) ∨
    ∃ inner, store.cells[cell]? = some (.holding (.treesOf (.shared inner))) ∧
      Unfolds bottom depth store inner

variable {bottom : Definition} {depth : Nat} {store middle : Store} {wider : AddressSet}

theorem Unfolds.live (unfolds : Unfolds bottom (depth + 1) store cell) : store.Live cell := by
  rcases unfolds with ⟨scope, pending⟩ | ⟨inner, holds, _⟩
  · exact ⟨_, pending, by simp⟩
  · exact Store.live_of_holding holds

/-- A collection that does not release the cell keeps everything that it unfolds to. -/
theorem Unfolds.collect (unfolds : Unfolds bottom depth store cell)
    (survives : (store.collect wider).cells[cell]? ≠ some .released) :
    Unfolds bottom depth (store.collect wider) cell := by
  induction depth generalizing cell with
  | zero => trivial
  | succ depth ih =>
    have same := (store.shrinks_collect wider cell).resolve_right survives
    rcases unfolds with ⟨scope, pending⟩ | ⟨inner, holds, deeper⟩
    · exact .inl ⟨scope, same.trans pending⟩
    · refine .inr ⟨inner, same.trans holds, ?_⟩
      cases depth with
      | zero => trivial
      | succ depth =>
        have kept := Store.cells_collect_of_owner holds (Built.mem_owned_treesOf inner) survives
        exact ih deeper (Store.not_released_of_live (deeper.live.of_eq kept))

/-- Items in a kept cell that unfolds up to the depth open up to it. -/
def UnfoldedAt (bottom : Definition) (held : AddressSet) (depth : Nat) (store : Store)
    (item : Grammar) : Prop :=
  depth = 0 ∨ ∃ cell, item = shared cell ∧ Store.Keeps held store cell ∧
    Unfolds bottom depth store cell

/-- What a kept cell holds trees of is kept as well. -/
theorem unfoldedAt_inner {inner : Address} (keeps : Store.Keeps held store cell)
    (holds : store.cells[cell]? = some (.holding (.treesOf (.shared inner))))
    (deeper : Unfolds bottom depth store inner) :
    UnfoldedAt bottom held depth store (shared inner) := by
  cases depth with
  | zero => exact .inl rfl
  | succ depth =>
    exact .inr ⟨inner, rfl,
      Store.keeps_of_owner keeps holds (Built.mem_owned_treesOf inner) deeper.live, deeper⟩

/-- A lazy definition that waits for the tree is an unfolding. -/
theorem unfolds_of_pending {scope : Scope}
    (pending : store.cells[cell]? = some (.pending ⟨0, [], scope, .unfoldedTree bottom depth⟩)) :
    Unfolds bottom depth store cell := by
  cases depth with
  | zero => trivial
  | succ depth => exact .inl ⟨scope, pending⟩

/-- When a cell is filled with a fresh lazy item, the cells that unfold still do. -/
theorem Unfolds.filled {inner other : Address} {scope : Scope} {filled : Store}
    (pending : store.cells[cell]? =
      some (.pending ⟨0, [], scope, .unfoldedTree bottom (depth + 1)⟩))
    (holds : filled.cells[cell]? = some (.holding (.treesOf (.shared inner))))
    (fresh : filled.cells[inner]? = some (.pending ⟨0, [], scope, .unfoldedTree bottom depth⟩))
    (others : ∀ other, store.Live other → other ≠ cell →
      filled.cells[other]? = store.cells[other]?)
    {level : Nat} (unfolds : Unfolds bottom level store other) :
    Unfolds bottom level filled other := by
  induction level generalizing other with
  | zero => trivial
  | succ level ih =>
    by_cases same : other = cell
    · subst same
      rcases unfolds with ⟨scope, waits⟩ | ⟨_, held, _⟩
      · -- The cell waits for one tree only, so both levels unfold alike.
        rw [pending] at waits
        simp only [Definition.unfoldedTree, Definition.treesOf, Definition.lazy, Option.some.injEq,
          Cell.pending.injEq, Factory.mk.injEq, Definition.adapt.injEq, Definition.between.injEq,
          Definition.many.injEq, Definition.deferred.injEq, true_and] at waits
        rw [waits.2] at fresh
        exact .inr ⟨inner, holds, unfolds_of_pending fresh⟩
      · rw [pending] at held
        simp at held
    · have kept := others other unfolds.live same
      rcases unfolds with ⟨scope, waits⟩ | ⟨next, held, deeper⟩
      · exact .inl ⟨scope, kept.trans waits⟩
      · exact .inr ⟨next, kept.trans held, ih deeper⟩

/-- The first use of a cell builds trees of a fresh lazy item. -/
theorem resolve_unfolded {scope : Scope}
    (pending : store.cells[cell]? =
      some (.pending ⟨0, [], scope, .unfoldedTree bottom (depth + 1)⟩)) (wider : AddressSet) :
    ∃ (inner : Address) (filled : Store),
      Run.resolve cell wider store = (.returned (treesOf (shared inner)), filled.collect wider) ∧
      filled.cells[cell]? = some (.holding (.treesOf (.shared inner))) ∧
      filled.cells[inner]? = some (.pending ⟨0, [], scope, .unfoldedTree bottom depth⟩) ∧
      ∀ other, store.Live other → other ≠ cell → filled.cells[other]? = store.cells[other]? := by
  let counted : Store := { store with builds := store.builds + 1 }
  let added := counted.addCell (.pending ⟨0, [], scope, .unfoldedTree bottom depth⟩)
  have present : cell < store.cells.length := (List.getElem?_eq_some_iff.mp pending).1
  refine ⟨store.cells.length, added.setCell cell (.holding (.treesOf (.shared store.cells.length))),
    ?_, ?_, ?_, ?_⟩
  · rw [Run.resolve_of_pending pending, Run.force_of_building rfl]
    exact Run.bind_of_returned (Definition.build_treesOf (Definition.build_lazy _ scope wider counted))
  · simp [added, counted, Store.setCell, Store.addCell, Nat.lt_succ_of_lt present]
  · simp [added, counted, Store.setCell, Store.addCell, Nat.ne_of_lt present]
  · rintro other ⟨found, exists_, _⟩ different
    have inside : other < store.cells.length := (List.getElem?_eq_some_iff.mp exists_).1
    simp [added, counted, Store.setCell, Store.addCell, Ne.symm different,
      List.getElem?_append_left inside]

theorem unfolded_arrangement (bottom : Definition) (held : AddressSet) :
    Arrangement held (UnfoldedAt bottom held) where
  collect wider store within depth item opened := by
    rcases opened with none | ⟨cell, rfl, keeps, unfolds⟩
    · exact .inl none
    · have later := (Store.Change.collect within : Store.Change held store _).later
      exact .inr ⟨cell, rfl, keeps.later later, unfolds.collect (keeps _ later)⟩
  enter wider depth store item within opened := by
    obtain ⟨cell, rfl, keeps, unfolds⟩ := opened.resolve_left (Nat.succ_ne_zero depth)
    rcases unfolds with ⟨scope, pending⟩ | ⟨inner, holds, deeper⟩
    · obtain ⟨inner, filled, resolved, holds, fresh, others⟩ := resolve_unfolded pending wider
      have later := (Run.evolves_resolve cell).later within resolved
      have carries : Carries (UnfoldedAt bottom held) store (filled.collect wider) := by
        rintro level item (none | ⟨other, rfl, keepsOther, unfolds⟩)
        · exact .inl none
        · refine .inr ⟨other, rfl, keepsOther.later later, ?_⟩
          exact (unfolds.filled pending holds fresh others).collect (keepsOther _ later)
      refine ⟨shared inner, wider, filled.collect wider, within, leadsTo_shared resolved, ?_, carries⟩
      have kept := (filled.shrinks_collect wider cell).resolve_right (keeps _ later)
      have waits := Store.cells_collect_of_owner holds (Built.mem_owned_treesOf inner)
        (keeps _ later)
      exact unfoldedAt_inner (keeps.later later) (kept.trans holds)
        (unfolds_of_pending (waits.trans fresh))
    · exact ⟨shared inner, wider, store, within, leadsTo_shared (Run.resolve_of_holding holds),
        unfoldedAt_inner keeps holds deeper, .refl _ store⟩

end Tree

namespace Definition

open Grammar

variable {held : AddressSet} {store : Store} {name : Text} {cell : Address} {bottom : Definition}
  {input rest : Input} {found : Match Value}

/-- Once it is built and held, the recursive tree is in its cell. -/
theorem holds_fixedTree (held : AddressSet) (store : Store) :
    (((store.addCell .unfinished).setCell store.cells.length
      (.holding (.treesOf (.handle store.cells.length)))).collect
        (held ∪ {store.cells.length})).cells[store.cells.length]? =
      some (.holding (.treesOf (.handle store.cells.length))) := by
  rw [Store.cells_collect_of_held (AddressSet.mem_union.mpr (.inr (AddressSet.mem_singleton.mpr rfl)))]
  simp [Store.setCell, Store.addCell]

theorem mem_held_union (held : AddressSet) (cell : Address) : cell ∈ held ∪ {cell} :=
  AddressSet.mem_union.mpr (.inr (AddressSet.mem_singleton.mpr rfl))

/-- The recursive tree has the answer to every input. -/
theorem fixedTree_matches (name : Text) (held : AddressSet) (store : Store)
    (answer : Tree.Answer input found) : (fixedTree name).Matches held store input found := by
  have holds := holds_fixedTree held store
  have arrangement := Tree.fixed_arrangement (mem_held_union held store.cells.length)
  obtain ⟨after, finds, _⟩ := (arrangement.reads input.length).treesOf (AddressSet.Subset.refl _)
    ⟨rfl, holds⟩ (Nat.lt_succ_self _) answer
  exact matches_of_finds (build_fixedTree name [] held store)
    (finds_shared (Run.resolve_of_holding holds) finds)

/-- The recursive tree writes every tree in front of any rest. -/
theorem fixedTree_constructs (name : Text) (held : AddressSet) (store : Store) (tree : Tree)
    (rest : Input) :
    (fixedTree name).Constructs held store tree.value rest (tree.text ++ rest) := by
  have holds := holds_fixedTree held store
  have arrangement := Tree.fixed_arrangement (mem_held_union held store.cells.length)
  obtain ⟨after, puts, _⟩ := (arrangement.writes tree.text.length).treesOf (AddressSet.Subset.refl _)
    ⟨rfl, holds⟩ tree rest (Nat.lt_succ_self _)
  exact constructs_of_puts (build_fixedTree name [] held store)
    (puts_shared (Run.resolve_of_holding holds) puts)

/-- A name that is tied lazily is built from the table. -/
theorem build_of_tied (tied : store.TiedLazily name cell) (held : AddressSet) :
    (named name).build [] held store = (.returned (.treesOf (.shared cell)), store) := by
  change Run.orStop (store.find? name) (.unknownName name) held store = _
  rw [tied.entry]
  rfl

/-- The lazy tree has the answer to every input, at its first use and at any other. It stays tied. -/
theorem lazyTree_use (tied : store.TiedLazily name cell) (held : AddressSet)
    (answer : Tree.Answer input found) :
    ∃ after, after.TiedLazily name cell ∧ ∃ enough, ∀ fuel, enough ≤ fuel →
      (named name).use (fun grammar => grammar.read fuel input) held store =
        (.returned found, after) := by
  have arrangement := Tree.lazy_arrangement (held ∪ (Built.treesOf (.shared cell)).owned) name cell
  have opened : Tree.LazyAt name cell input.length
      (store.collect (held ∪ (Built.treesOf (.shared cell)).owned)) (shared cell) :=
    ⟨rfl, tied.collect _⟩
  obtain ⟨after, finds, carries⟩ := (arrangement.reads input.length).treesOf
    (AddressSet.Subset.refl _) opened (Nat.lt_succ_self _) answer
  have kept := (carries input.length (shared cell) opened).2
  obtain ⟨enough, returned⟩ := finds.enough
  refine ⟨_, ?_, enough, fun fuel more => use_of_returned (build_of_tied tied held)
    (returned fuel more)⟩
  split
  · exact kept
  · exact kept.collect held

theorem lazyTree_matches (tied : store.TiedLazily name cell) (held : AddressSet)
    (answer : Tree.Answer input found) : (named name).Matches held store input found := by
  obtain ⟨after, _, returned⟩ := lazyTree_use tied held answer
  exact ⟨after, returned⟩

theorem lazyTree_constructs (tied : store.TiedLazily name cell) (held : AddressSet) (tree : Tree)
    (rest : Input) : (named name).Constructs held store tree.value rest (tree.text ++ rest) := by
  have arrangement := Tree.lazy_arrangement (held ∪ (Built.treesOf (.shared cell)).owned) name cell
  obtain ⟨after, puts, _⟩ := (arrangement.writes tree.text.length).treesOf (AddressSet.Subset.refl _)
    ⟨rfl, tied.collect _⟩ tree rest (Nat.lt_succ_self _)
  exact constructs_of_puts (build_of_tied tied held) puts

/-- Defining the lazy tree ties its name. -/
theorem tied_of_define (name : Text) (fuel : Nat) (held : AddressSet) (store : Store) :
    ∃ after, (Step.define name (lazyTree name)).run fuel held store = (.returned .done, after) ∧
      after.TiedLazily name store.cells.length := by
  let waiting := store.addCell (.pending ⟨0, [], [], .named name⟩)
  refine ⟨waiting.define name (.treesOf (.shared store.cells.length)), ?_, ?_, .inl ⟨[], ?_⟩⟩
  · exact Run.bind_of_returned (build_treesOf (build_lazy (named name) [] held store))
  · exact Store.find?_define _ _ _
  · simp [waiting, Store.define, Store.addCell]

/-- A freshly built unfolded tree has items that open one level less. -/
theorem unfoldedAt_fresh (bottom : Definition) (depth : Nat) (held : AddressSet) (store : Store) :
    Tree.UnfoldedAt bottom (held ∪ {store.cells.length}) depth
      ((store.addCell (.pending ⟨0, [], [], .unfoldedTree bottom depth⟩)).collect
        (held ∪ {store.cells.length})) (shared store.cells.length) := by
  have member := mem_held_union held store.cells.length
  have found : ((store.addCell (.pending ⟨0, [], [], .unfoldedTree bottom depth⟩)).collect
      (held ∪ {store.cells.length})).cells[store.cells.length]? =
        some (.pending ⟨0, [], [], .unfoldedTree bottom depth⟩) := by
    rw [Store.cells_collect_of_held member]
    simp [Store.addCell]
  exact .inr ⟨_, rfl, Store.keeps_of_held member ⟨_, found, by simp⟩, Tree.unfolds_of_pending found⟩

/-- An unfolded tree has the answer to every input that is shorter than its depth. -/
theorem unfoldedTree_matches (bottom : Definition) (held : AddressSet) (store : Store) {depth : Nat}
    (short : input.length < depth) (answer : Tree.Answer input found) :
    (unfoldedTree bottom depth).Matches held store input found := by
  obtain ⟨level, rfl⟩ := Nat.exists_eq_succ_of_ne_zero (Nat.ne_zero_of_lt short)
  have arrangement := Tree.unfolded_arrangement bottom (held ∪ {store.cells.length})
  obtain ⟨after, finds, _⟩ := (arrangement.reads level).treesOf (AddressSet.Subset.refl _)
    (unfoldedAt_fresh bottom level held store) short answer
  have builds := build_treesOf (build_lazy (unfoldedTree bottom level) [] held store)
  rw [← show (Built.treesOf (.shared store.cells.length)).owned = {store.cells.length} from
    Built.owned_treesOf _] at finds
  exact matches_of_finds builds finds

theorem unfoldedTree_constructs (bottom : Definition) (held : AddressSet) (store : Store)
    {depth : Nat} (tree : Tree) (rest : Input) (short : tree.text.length < depth) :
    (unfoldedTree bottom depth).Constructs held store tree.value rest (tree.text ++ rest) := by
  obtain ⟨level, rfl⟩ := Nat.exists_eq_succ_of_ne_zero (Nat.ne_zero_of_lt short)
  have arrangement := Tree.unfolded_arrangement bottom (held ∪ {store.cells.length})
  obtain ⟨after, puts, _⟩ := (arrangement.writes level).treesOf (AddressSet.Subset.refl _)
    (unfoldedAt_fresh bottom level held store) tree rest short
  have builds := build_treesOf (build_lazy (unfoldedTree bottom level) [] held store)
  rw [← show (Built.treesOf (.shared store.cells.length)).owned = {store.cells.length} from
    Built.owned_treesOf _] at puts
  exact constructs_of_puts builds puts

/-- A match that answers is the only one. -/
theorem Matches.answer {definition : Definition}
    (answers : ∀ found, Tree.Answer input found → definition.Matches held store input found)
    (matched : definition.Matches held store input found) : Tree.Answer input found := by
  obtain ⟨other, answer⟩ := Tree.exists_answer input
  rwa [matched.unique (answers other answer)]

/-- Two definitions that answer match alike. -/
theorem matches_congr {first second : Definition} {otherHeld : AddressSet} {otherStore : Store}
    (firstAnswers : ∀ found, Tree.Answer input found → first.Matches held store input found)
    (secondAnswers : ∀ found, Tree.Answer input found →
      second.Matches otherHeld otherStore input found) :
    first.Matches held store input found ↔ second.Matches otherHeld otherStore input found :=
  ⟨fun matched => secondAnswers found (matched.answer firstAnswers),
    fun matched => firstAnswers found (matched.answer secondAnswers)⟩

theorem constructs_congr {first second : Definition} {otherHeld : AddressSet} {otherStore : Store}
    {value : Value} {text other : Input} (firstWrites : first.Constructs held store value rest text)
    (secondWrites : second.Constructs otherHeld otherStore value rest text) :
    first.Constructs held store value rest other ↔
      second.Constructs otherHeld otherStore value rest other :=
  ⟨fun written => firstWrites.unique written ▸ secondWrites,
    fun written => secondWrites.unique written ▸ firstWrites⟩

/-- The recursive tree is exact in both directions, and trees that are tied lazily agree with it. Every
tree is read back in front of any rest. A success takes the text of a tree off, and there is only one
such tree. Any other input is shown as it is, or as what the longest run of trees leaves behind the
opening parenthesis. The agreement covers a lazy tree that looks itself up, whether it was used before
or not, and a tree of fresh lazy items that is unfolded deeper than the text is long. -/
theorem parentheses_exact (name : Text) (held : AddressSet) (store : Store) :
    (∀ (tree : Tree) rest,
      (fixedTree name).Constructs held store tree.value rest (tree.text ++ rest) ∧
        (fixedTree name).Matches held store (tree.text ++ rest) (.success tree.value rest)) ∧
    (∀ input value rest, (fixedTree name).Matches held store input (.success value rest) ↔
      ∃ tree : Tree, tree.value = value ∧ input = tree.text ++ rest) ∧
    (∀ (tree other : Tree) rest last, tree.text ++ rest = other.text ++ last →
      tree = other ∧ rest = last) ∧
    (∀ input, (∀ (tree : Tree) rest, input ≠ tree.text ++ rest) →
      (input.head? ≠ some (.char '(') →
        (fixedTree name).Matches held store input (.failure input)) ∧
      ∀ inner, input = .char '(' :: inner → (∃ trees left, Tree.LongestRun inner trees left) ∧
        ∀ trees left, Tree.LongestRun inner trees left →
          (fixedTree name).Matches held store input (.failure left)) ∧
    (∀ lazyName lazyHeld lazyStore cell, lazyStore.TiedLazily lazyName cell →
      (∀ input found, (named lazyName).Matches lazyHeld lazyStore input found ↔
        (fixedTree name).Matches held store input found) ∧
      ∀ (tree : Tree) rest text,
        (named lazyName).Constructs lazyHeld lazyStore tree.value rest text ↔
          (fixedTree name).Constructs held store tree.value rest text) ∧
    ∀ bottom depth,
      (∀ input found, input.length < depth →
        ((unfoldedTree bottom depth).Matches held store input found ↔
          (fixedTree name).Matches held store input found)) ∧
      ∀ (tree : Tree) rest text, tree.text.length < depth →
        ((unfoldedTree bottom depth).Constructs held store tree.value rest text ↔
          (fixedTree name).Constructs held store tree.value rest text) := by
  have answers (input : Input) (found : Match Value) (answer : Tree.Answer input found) :=
    fixedTree_matches name held store answer
  have writes := fixedTree_constructs name held store
  refine ⟨fun tree rest => ⟨writes tree rest, answers _ _ (.tree tree rest)⟩, ?_, ?_, ?_, ?_, ?_⟩
  · intro input value rest
    constructor
    · intro matched
      obtain ⟨tree, rest⟩ := matched.answer (answers input)
      exact ⟨tree, rfl, rfl⟩
    · rintro ⟨tree, rfl, rfl⟩
      exact answers _ _ (.tree tree rest)
  · exact fun tree other rest last same => Tree.eq_of_text_append tree same
  · intro input bare
    refine ⟨fun different => answers _ _ (.closed different), ?_⟩
    rintro inner rfl
    refine ⟨Tree.exists_longestRun inner, ?_⟩
    intro trees left run
    have free := run.bare
    obtain ⟨rfl, _⟩ := run
    refine answers _ _ (.unclosed trees free ?_)
    -- With a closing parenthesis next, the input would start with a tree.
    intro closed
    obtain ⟨rest, rfl⟩ := List.head?_eq_some_iff.mp closed
    exact bare (.node trees) rest (Tree.text_append (.node trees) rest).symm
  · intro lazyName lazyHeld lazyStore cell tied
    exact ⟨fun input found => matches_congr (fun _ => lazyTree_matches tied lazyHeld) (answers input),
      fun tree rest text => constructs_congr (lazyTree_constructs tied lazyHeld tree rest)
        (writes tree rest)⟩
  · intro bottom depth
    exact ⟨fun input found short => matches_congr
        (fun _ => unfoldedTree_matches bottom held store short) (answers input),
      fun tree rest text short => constructs_congr
        (unfoldedTree_constructs bottom held store tree rest short) (writes tree rest)⟩

/-- An opening parenthesis alone is not a tree. All trees show what is behind it, which is nothing. -/
theorem parentheses_exact_opening :
    let store := Store.new .unlimited
    (fixedTree ['t']).Matches ∅ store [.char '('] (.failure []) ∧
      (unfoldedTree (symbol (.char '?')) 2).Matches ∅ store [.char '('] (.failure []) ∧
      ∃ after cell, after.TiedLazily ['t'] cell ∧
        (named ['t']).Matches ∅ after [.char '('] (.failure []) := by
  obtain ⟨_, _, _, fails, lazies, unfolds⟩ := parentheses_exact ['t'] ∅ (.new .unlimited)
  have bare (tree : Tree) (rest : Input) : [.char '('] ≠ tree.text ++ rest := by
    rw [Tree.text_append]
    simp
  have nothing : Tree.LongestRun [] [] [] :=
    @Tree.longestRun_of_bare [] [] (Tree.bare_of_head? (by simp))
  have fixed := ((fails [.char '('] bare).2 [] rfl).2 [] [] nothing
  obtain ⟨after, _, tied⟩ := tied_of_define ['t'] 0 ∅ (.new .unlimited)
  exact ⟨fixed, ((unfolds _ 2).1 _ _ (by decide)).mpr fixed,
    after, _, tied, ((lazies ['t'] ∅ after _ tied).1 _ _).mpr fixed⟩

end Definition

end TwoWayGrammar
