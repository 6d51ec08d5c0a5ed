import TwoWayGrammar.Match
import TwoWayGrammar.Value

namespace TwoWayGrammar

/-- A tree has a list of children. -/
inductive Tree where
  | node (children : List Tree)

namespace Tree

/-- The children of the root. -/
def children : Tree → List Tree
  | node children => children

mutual

/-- A tree as a value. -/
def value : Tree → Value
  | node children => .node (values children)

/-- Trees as values. -/
def values : List Tree → List Value
  | [] => []
  | tree :: trees => value tree :: values trees

end

mutual

/-- A tree is written as its children between parentheses. -/
def text : Tree → Input
  | node children => .char '(' :: (texts children ++ [.char ')'])

/-- Trees are written one after the other. -/
def texts : List Tree → Input
  | [] => []
  | tree :: trees => text tree ++ texts trees

end

variable {tree other : Tree} {trees others : List Tree} {input left rest last : Input}

theorem text_append (tree : Tree) (rest : Input) :
    tree.text ++ rest = .char '(' :: (texts tree.children ++ .char ')' :: rest) := by
  obtain ⟨children⟩ := tree
  simp [text, Tree.children]

theorem texts_cons_append (tree : Tree) (trees : List Tree) (rest : Input) :
    texts (tree :: trees) ++ rest = tree.text ++ (texts trees ++ rest) := by
  rw [texts, List.append_assoc]

theorem value_eq (tree : Tree) : tree.value = .node (values tree.children) := by
  obtain ⟨children⟩ := tree
  rfl

theorem head?_text_append (tree : Tree) (rest : Input) :
    (tree.text ++ rest).head? = some (.char '(') := by
  rw [text_append]
  rfl

mutual

/-- Two trees that start the same input are the same, and so is what they leave. -/
theorem eq_of_text_append : (tree : Tree) → ∀ {other : Tree} {rest last : Input},
    tree.text ++ rest = other.text ++ last → tree = other ∧ rest = last
  | node children, node others, rest, last, same => by
    rw [text_append, text_append, List.cons.injEq] at same
    obtain ⟨rfl, rfl⟩ := eq_of_texts_append children same.2
    exact ⟨rfl, rfl⟩

/-- Trees up to a closing parenthesis are the same, and so is what is behind it. -/
theorem eq_of_texts_append : (trees : List Tree) → ∀ {others : List Tree} {rest last : Input},
    texts trees ++ .char ')' :: rest = texts others ++ .char ')' :: last →
      trees = others ∧ rest = last
  | [], [], rest, last, same => ⟨rfl, (List.cons.inj same).2⟩
  | [], other :: others, rest, last, same => by
    have heads := congrArg List.head? same
    rw [texts_cons_append, head?_text_append] at heads
    simp [texts] at heads
  | tree :: trees, [], rest, last, same => by
    have heads := congrArg List.head? same
    rw [texts_cons_append, head?_text_append] at heads
    simp [texts] at heads
  | tree :: trees, other :: others, rest, last, same => by
    rw [texts_cons_append, texts_cons_append] at same
    obtain ⟨rfl, behind⟩ := eq_of_text_append tree same
    obtain ⟨rfl, rfl⟩ := eq_of_texts_append trees behind
    exact ⟨rfl, rfl⟩

end

/-- No tree is at the front of the input. -/
def Bare (input : Input) : Prop := ∀ (tree : Tree) rest, input ≠ tree.text ++ rest

theorem bare_of_head? (different : input.head? ≠ some (.char '(')) : Bare input := by
  rintro tree rest rfl
  exact different (head?_text_append tree rest)

/-- A longest run of trees at the front of an input, with what is left behind it. -/
structure LongestRun (input : Input) (trees : List Tree) (left : Input) : Prop where
  split : input = texts trees ++ left
  longest : ∀ others rest, input = texts others ++ rest → others.length ≤ trees.length

/-- Every other run of trees is a front part of one that ends where there is no tree. -/
theorem prefix_of_bare (bare : Bare left) (same : texts trees ++ left = texts others ++ rest) :
    others <+: trees := by
  induction others generalizing trees with
  | nil => exact List.nil_prefix
  | cons other others ih =>
    rw [texts_cons_append] at same
    cases trees with
    | nil => exact absurd same (bare other _)
    | cons tree trees =>
      rw [texts_cons_append] at same
      obtain ⟨rfl, behind⟩ := eq_of_text_append tree same
      exact List.cons_prefix_cons.mpr ⟨rfl, ih behind⟩

theorem longestRun_of_bare (bare : Bare left) : LongestRun (texts trees ++ left) trees left where
  split := rfl
  longest _ _ same := (prefix_of_bare bare same).length_le

theorem length_text_append (tree : Tree) (rest : Input) :
    rest.length < (tree.text ++ rest).length := by
  rw [text_append]
  simp
  omega

/-- Every input starts with a run of trees that ends where there is no tree. -/
theorem exists_run (input : Input) : ∃ trees left, input = texts trees ++ left ∧ Bare left := by
  by_cases started : ∃ (tree : Tree) (rest : Input), input = tree.text ++ rest
  · obtain ⟨tree, rest, split⟩ := started
    have shorter : rest.length < input.length := split ▸ length_text_append tree rest
    obtain ⟨trees, left, behind, bare⟩ := exists_run rest
    exact ⟨tree :: trees, left, by rw [texts_cons_append, ← behind, split], bare⟩
  · exact ⟨[], input, rfl, fun tree rest same => started ⟨tree, rest, same⟩⟩
termination_by input.length

theorem texts_append (trees others : List Tree) :
    texts (trees ++ others) = texts trees ++ texts others := by
  induction trees with
  | nil => rfl
  | cons tree trees ih => rw [List.cons_append, texts, texts, ih, List.append_assoc]

/-- Behind a longest run there is no tree, because it would make the run longer. -/
theorem LongestRun.bare (run : LongestRun input trees left) : Bare left := by
  rintro tree rest rfl
  have further : input = texts (trees ++ [tree]) ++ rest := by
    rw [run.split, texts_append, List.append_assoc, texts_cons_append]
    rfl
  have longer := run.longest _ rest further
  rw [List.length_append] at longer
  exact Nat.not_succ_le_self _ longer

/-- Every input starts with a longest run of trees. -/
theorem exists_longestRun (input : Input) : ∃ trees left, LongestRun input trees left := by
  obtain ⟨trees, left, rfl, bare⟩ := exists_run input
  exact ⟨trees, left, longestRun_of_bare bare⟩

/-- What reading an input as a tree answers. A tree at the front is taken off. An input that does not
start with a parenthesis is shown as it is. Behind an opening parenthesis, what is left by a run of
trees is shown. -/
inductive Answer : Input → Match Value → Prop
  | tree (tree : Tree) (rest : Input) : Answer (tree.text ++ rest) (.success tree.value rest)
  | closed {input : Input} (different : input.head? ≠ some (.char '(')) :
      Answer input (.failure input)
  | unclosed (trees : List Tree) {left : Input} (bare : Bare left)
      (different : left.head? ≠ some (.char ')')) :
      Answer (.char '(' :: (texts trees ++ left)) (.failure left)

/-- Every input has an answer. -/
theorem exists_answer (input : Input) : ∃ found, Answer input found := by
  by_cases opened : input.head? = some (.char '(')
  · obtain ⟨inner, rfl⟩ : ∃ inner, input = .char '(' :: inner := by
      cases input with
      | nil => simp at opened
      | cons atom inner => exact ⟨inner, by rw [Option.some.inj opened]⟩
    obtain ⟨trees, left, rfl, bare⟩ := exists_run inner
    by_cases ended : left.head? = some (.char ')')
    · obtain ⟨rest, rfl⟩ : ∃ rest, left = .char ')' :: rest := by
        cases left with
        | nil => simp at ended
        | cons atom rest => exact ⟨rest, by rw [Option.some.inj ended]⟩
      have answer := Answer.tree (node trees) rest
      rw [text_append] at answer
      exact ⟨_, answer⟩
    · exact ⟨_, .unclosed trees bare ended⟩
  · exact ⟨_, .closed opened⟩

end Tree

end TwoWayGrammar
