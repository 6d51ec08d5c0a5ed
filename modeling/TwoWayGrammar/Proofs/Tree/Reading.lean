import TwoWayGrammar.Proofs.Grammar.Finding
import TwoWayGrammar.Proofs.Tree.Text

namespace TwoWayGrammar

namespace Grammar

/-- A tree is a list of items between parentheses. -/
def treesOf (item : Grammar) : Grammar :=
  adapt Prism.listAsNode (between (literal (.char '(')) (literal (.char ')')) (many item))

@[simp] theorem owned_treesOf (item : Grammar) : (treesOf item).owned = item.owned := by
  simp [treesOf, between, owned]

theorem finds_literal (held : AddressSet) (store : Store) (expected : Atom) (rest : Input) :
    Finds held store (literal expected) (expected :: rest) (.success .unit rest) store := by
  have found := @finds_primitive held (.literal expected) (expected :: rest) store
  rwa [Primitive.read, if_pos rfl] at found

/-- A literal that is not there shows the input as it is. -/
theorem finds_literal_of_ne (held : AddressSet) (store : Store) {expected : Atom} {input : Input}
    (different : input.head? ≠ some expected) :
    Finds held store (literal expected) input (.failure input) store := by
  have missed := @finds_primitive held (.literal expected) input store
  cases input with
  | nil => exact missed
  | cons atom rest => rwa [Primitive.read, if_neg (by simpa using different)] at missed

theorem puts_literal (held : AddressSet) (store : Store) (expected : Atom) (rest : Input) :
    Puts held store (literal expected) .unit rest (expected :: rest) store :=
  puts_primitive rfl store

/-- Entering the item is using the body with some cells held, up to a collection afterwards. -/
structure LeadsTo (held : AddressSet) (store : Store) (item body : Grammar) (inside : AddressSet)
    (middle : Store) : Prop where
  finds : ∀ {input found after}, Finds inside middle body input found after →
    ∃ last, Finds held store item input found last ∧ (last = after ∨ last = after.collect held)
  puts : ∀ {value rest text after}, Puts inside middle body value rest text after →
    ∃ last, Puts held store item value rest text last ∧ (last = after ∨ last = after.collect held)

theorem leadsTo_shared {held : AddressSet} {store middle : Store} {cell : Address} {body : Grammar}
    (resolved : Run.resolve cell held store = (.returned body, middle)) :
    LeadsTo held store (shared cell) body held middle where
  finds finds := ⟨_, finds_shared resolved finds, .inl rfl⟩
  puts puts := ⟨_, puts_shared resolved puts, .inl rfl⟩

theorem leadsTo_handle {held : AddressSet} {store middle : Store} {cell : Address} {body : Grammar}
    (resolved : Run.resolve cell (held ∪ {cell}) store = (.returned body, middle)) :
    LeadsTo held store (handle cell) body (held ∪ {cell}) middle where
  finds finds := finds_handle (finds_shared resolved finds)
  puts puts := puts_handle (puts_shared resolved puts)

end Grammar

open Grammar

/-- What is good for entering an item stays good. -/
def Carries (opens : Nat → Store → Grammar → Prop) (store after : Store) : Prop :=
  ∀ depth item, opens depth store item → opens depth after item

theorem Carries.refl (opens : Nat → Store → Grammar → Prop) (store : Store) :
    Carries opens store store := fun _ _ opened => opened

theorem Carries.trans {opens : Nat → Store → Grammar → Prop} {first second third : Store}
    (before : Carries opens first second) (later : Carries opens second third) :
    Carries opens first third := fun depth item opened => later depth item (before depth item opened)

/-- An item that opens for one level more can be entered and gives a tree of items that open. -/
structure Arrangement (held : AddressSet) (opens : Nat → Store → Grammar → Prop) : Prop where
  collect : ∀ (wider : AddressSet) store, held ⊆ wider → Carries opens store (store.collect wider)
  enter : ∀ (wider : AddressSet) depth store item, held ⊆ wider → opens (depth + 1) store item →
    ∃ inner inside middle, held ⊆ inside ∧ LeadsTo wider store item (treesOf inner) inside middle ∧
      opens depth middle inner ∧ Carries opens store middle

/-- Items that open up to the depth answer every shorter input. -/
def ReadsTrees (held : AddressSet) (opens : Nat → Store → Grammar → Prop) (depth : Nat) : Prop :=
  ∀ (wider : AddressSet) store item input found, held ⊆ wider → opens depth store item →
    input.length < depth → Tree.Answer input found →
      ∃ after, Finds wider store item input found after ∧ Carries opens store after

/-- Items that open up to the depth write every shorter tree in front of any rest. -/
def WritesTrees (held : AddressSet) (opens : Nat → Store → Grammar → Prop) (depth : Nat) : Prop :=
  ∀ (wider : AddressSet) store item (tree : Tree) rest, held ⊆ wider → opens depth store item →
    tree.text.length < depth →
      ∃ after, Puts wider store item tree.value rest (tree.text ++ rest) after ∧
        Carries opens store after

section Children

variable {held wider : AddressSet} {opens : Nat → Store → Grammar → Prop} {depth : Nat}
  {store : Store} {inner : Grammar}

/-- The loop over the children takes off a run of trees, and its last attempt fails. -/
theorem ReadsTrees.many (reads : ReadsTrees held opens depth) (within : held ⊆ wider)
    {left : Input} (bare : Tree.Bare left) (trees : List Tree) (opened : opens depth store inner)
    (short : (Tree.texts trees ++ left).length < depth) :
    ∃ after, Finds wider store (many inner) (Tree.texts trees ++ left)
      (.success (.list (Tree.values trees)) left) after ∧ Carries opens store after := by
  induction trees generalizing store with
  | nil =>
    obtain ⟨found, answer⟩ := Tree.exists_answer left
    obtain ⟨after, finds, carries⟩ := reads wider store inner left found within opened short answer
    cases found with
    | success value rest =>
      obtain ⟨tree, rest⟩ := answer
      exact absurd rfl (bare tree rest)
    | failure rest => exact ⟨after, finds_many_nil finds, carries⟩
  | cons tree trees ih =>
    rw [Tree.texts_cons_append] at short ⊢
    obtain ⟨middle, finds, carries⟩ := reads wider store inner _ _ within opened short
      (.tree tree (Tree.texts trees ++ left))
    have shorter := Tree.length_text_append tree (Tree.texts trees ++ left)
    obtain ⟨after, others, further⟩ := ih (carries depth inner opened) (Nat.lt_trans shorter short)
    exact ⟨after, finds_many_cons finds others, carries.trans further⟩

/-- A tree of items that answer has the answer for inputs that are longer by one. -/
theorem ReadsTrees.treesOf (reads : ReadsTrees held opens depth) (within : held ⊆ wider)
    (opened : opens depth store inner) {input : Input} (short : input.length < depth + 1)
    {found : Match Value} (answer : Tree.Answer input found) :
    ∃ after, Finds wider store (treesOf inner) input found after ∧ Carries opens store after := by
  cases answer with
  | tree tree rest =>
    rw [Tree.text_append] at short ⊢
    have closed : Tree.Bare (.char ')' :: rest) := Tree.bare_of_head? (by simp)
    obtain ⟨after, children, carries⟩ :=
      reads.many within closed tree.children opened (by simpa using short)
    refine ⟨after, ?_, carries⟩
    rw [Tree.value_eq]
    exact finds_adapt rfl (finds_discardThen (finds_literal wider store _ _)
      (finds_thenDiscard children (finds_literal wider after _ rest)))
  | closed different =>
    exact ⟨store, finds_adapt_of_failure (finds_discardThen_of_failure
      (finds_literal_of_ne wider store different)), .refl opens store⟩
  | unclosed trees bare different =>
    obtain ⟨after, children, carries⟩ := reads.many within bare trees opened (by simpa using short)
    exact ⟨after, finds_adapt_of_failure (finds_discardThen (finds_literal wider store _ _)
      (finds_thenDiscard_of_failure children (finds_literal_of_ne wider after different))), carries⟩

/-- The children are written from the last to the first. -/
theorem WritesTrees.many (writes : WritesTrees held opens depth) (within : held ⊆ wider)
    (trees : List Tree) (rest : Input) (opened : opens depth store inner)
    (short : (Tree.texts trees).length < depth) :
    ∃ after, Puts wider store (many inner) (.list (Tree.values trees)) rest
      (Tree.texts trees ++ rest) after ∧ Carries opens store after := by
  induction trees with
  | nil => exact ⟨store, puts_many_nil rest store, .refl opens store⟩
  | cons tree trees ih =>
    rw [Tree.texts, List.length_append] at short
    obtain ⟨middle, others, carries⟩ := ih (by omega)
    obtain ⟨after, puts, further⟩ := writes wider middle inner tree (Tree.texts trees ++ rest) within
      (carries depth inner opened) (by omega)
    rw [Tree.texts_cons_append]
    exact ⟨after, puts_many_cons others puts, carries.trans further⟩

/-- A tree of items that are written is written between parentheses. -/
theorem WritesTrees.treesOf (writes : WritesTrees held opens depth) (within : held ⊆ wider)
    (opened : opens depth store inner) (tree : Tree) (rest : Input)
    (short : tree.text.length < depth + 1) :
    ∃ after, Puts wider store (treesOf inner) tree.value rest (tree.text ++ rest) after ∧
      Carries opens store after := by
  have inside : (Tree.texts tree.children).length < depth := by
    have whole := congrArg List.length (Tree.text_append tree [])
    simp at whole
    omega
  obtain ⟨after, children, carries⟩ :=
    writes.many within tree.children (.char ')' :: rest) opened inside
  refine ⟨after, ?_, carries⟩
  rw [Tree.value_eq, Tree.text_append]
  exact puts_adapt (puts_discardThen (puts_thenDiscard (puts_literal wider store _ rest) children)
    (puts_literal wider after _ _))

end Children

namespace Arrangement

variable {held : AddressSet} {opens : Nat → Store → Grammar → Prop}

/-- By induction on the depth, items that open answer. Each level of the input is an entry. -/
theorem reads (arrangement : Arrangement held opens) (depth : Nat) :
    ReadsTrees held opens depth := by
  induction depth with
  | zero => exact fun _ _ _ _ _ _ _ short => absurd short (Nat.not_lt_zero _)
  | succ depth ih =>
    intro wider store item input found within opened short answer
    obtain ⟨inner, inside, middle, wide, leads, deeper, carries⟩ :=
      arrangement.enter wider depth store item within opened
    obtain ⟨after, finds, further⟩ := ih.treesOf wide deeper short answer
    obtain ⟨last, outer, rfl | rfl⟩ := leads.finds finds
    · exact ⟨last, outer, carries.trans further⟩
    · exact ⟨_, outer, (carries.trans further).trans (arrangement.collect wider after within)⟩

theorem writes (arrangement : Arrangement held opens) (depth : Nat) :
    WritesTrees held opens depth := by
  induction depth with
  | zero => exact fun _ _ _ _ _ _ _ short => absurd short (Nat.not_lt_zero _)
  | succ depth ih =>
    intro wider store item tree rest within opened short
    obtain ⟨inner, inside, middle, wide, leads, deeper, carries⟩ :=
      arrangement.enter wider depth store item within opened
    obtain ⟨after, puts, further⟩ := ih.treesOf wide deeper tree rest short
    obtain ⟨last, outer, rfl | rfl⟩ := leads.puts puts
    · exact ⟨last, outer, carries.trans further⟩
    · exact ⟨_, outer, (carries.trans further).trans (arrangement.collect wider after within)⟩

end Arrangement

end TwoWayGrammar
