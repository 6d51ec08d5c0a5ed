import TwoWayGrammar.Proofs.Grammar.Clauses
import TwoWayGrammar.Proofs.Run.Inversion

namespace TwoWayGrammar

namespace Run

variable {α β : Type} {input : Input}

/-- A run leaves a suffix when every match that it returns carries a suffix of the input. -/
def Leaves (input : Input) (run : Run (Match α)) : Prop :=
  ∀ held store found after, run held store = (.returned found, after) → found.rest <:+ input

theorem leaves_pure {found : Match α} (suffix : found.rest <:+ input) :
    Leaves input (pure found : Run (Match α)) := by
  intro held store other after returned
  obtain ⟨rfl, rfl⟩ := returned_of_pure returned
  exact suffix

theorem leaves_success (value : α) (rest : Input) :
    Leaves rest (pure (.success value rest) : Run (Match α)) :=
  leaves_pure (List.suffix_refl rest)

theorem leaves_diverge : Leaves input (diverge : Run (Match α)) := by
  intro held store found after returned
  simp [diverge] at returned

theorem leaves_stop (fault : Fault) : Leaves input (stop fault : Run (Match α)) := by
  intro held store found after returned
  simp [stop] at returned

theorem Leaves.bind {first : Run α} {next : α → Run (Match β)}
    (leaves : ∀ result, Leaves input (next result)) : Leaves input (first >>= next) := by
  intro held store found after returned
  obtain ⟨result, middle, _, returned⟩ := returned_of_bind returned
  exact leaves result held middle found after returned

theorem Leaves.onSuccess {first : Run (Match α)} {next : α → Input → Run (Match β)}
    (leaves : Leaves input first) (leavesNext : ∀ value rest, Leaves rest (next value rest)) :
    Leaves input (Run.onSuccess first next) := by
  intro held store found after returned
  obtain ⟨outcome, middle, begun, returned⟩ := returned_of_bind returned
  have suffix := leaves held store outcome middle begun
  cases outcome with
  | success value rest =>
    exact (leavesNext value rest held middle found after returned).trans suffix
  | failure rest =>
    obtain ⟨rfl, rfl⟩ := returned_of_pure returned
    exact suffix

theorem Leaves.onFailure {first other : Run (Match α)} (leaves : Leaves input first)
    (leavesOther : Leaves input other) : Leaves input (Run.onFailure first other) := by
  intro held store found after returned
  obtain ⟨outcome, middle, begun, returned⟩ := returned_of_bind returned
  cases outcome with
  | success value rest =>
    have suffix := leaves held store _ middle begun
    obtain ⟨rfl, rfl⟩ := returned_of_pure returned
    exact suffix
  | failure rest => exact leavesOther held middle found after returned

theorem Leaves.holding (cells : AddressSet) {run : Run (Match α)} (leaves : Leaves input run) :
    Leaves input (Run.holding cells run) := by
  intro held store found after returned
  obtain ⟨middle, inner, _⟩ := returned_of_holding returned
  exact leaves _ store found middle inner

theorem Leaves.traced (operation name : Text) (ok : Match α → Bool) {run : Run (Match α)}
    (leaves : Leaves input run) : Leaves input (Run.traced operation name ok run) := by
  intro held store found after returned
  obtain ⟨entered, left, last, _, inner, _, _⟩ := returned_of_traced returned
  exact leaves held _ found left inner

/-- A loop ends at the input of its last attempt. -/
theorem suffix_of_readMany {item : Input → Run (Match α)} (leaves : ∀ input, Leaves input (item input))
    {attempts : Nat} {held : AddressSet} {store after : Store} {values : List α} {rest : Input}
    (returned : readMany item attempts input held store = (.returned (values, rest), after)) :
    rest <:+ input := by
  induction attempts generalizing input store values with
  | zero => simp [readMany, diverge] at returned
  | succ attempts ih =>
    obtain ⟨outcome, middle, begun, returned⟩ := returned_of_bind returned
    cases outcome with
    | success value between =>
      obtain ⟨⟨others, ending⟩, close, further, returned⟩ := returned_of_bind returned
      obtain ⟨same, rfl⟩ := returned_of_pure returned
      obtain ⟨rfl, rfl⟩ := Prod.mk.inj same
      exact (ih further).trans (leaves input held store _ middle begun)
    | failure left =>
      obtain ⟨same, rfl⟩ := returned_of_pure returned
      obtain ⟨rfl, rfl⟩ := Prod.mk.inj same
      exact List.suffix_refl input

theorem leaves_readTimes {item : Input → Run (Match α)} (leaves : ∀ input, Leaves input (item input))
    (times : Nat) (input : Input) : Leaves input (readTimes item times input) := by
  induction times generalizing input with
  | zero => exact leaves_pure (List.suffix_refl input)
  | succ times ih =>
    exact (leaves input).onSuccess fun _ rest => (ih rest).onSuccess fun _ last =>
      leaves_pure (List.suffix_refl last)

end Run

namespace Primitive

/-- Writing puts the part in front of the rest. -/
theorem suffix_of_write? {base : Primitive} {value : Value} {rest text : Input}
    (written : base.write? value rest = some text) : rest <:+ text := by
  unfold write? at written
  split at written
  · obtain rfl := Option.some.inj written
    exact List.suffix_cons _ _
  · obtain rfl := Option.some.inj written
    exact List.suffix_cons _ _
  · obtain rfl := Option.some.inj written
    exact List.suffix_cons _ _
  · obtain rfl := Option.some.inj written
    exact List.suffix_append _ _
  · obtain rfl := Option.some.inj written
    exact List.suffix_refl _
  · simp at written

theorem suffix_of_read (base : Primitive) (input : Input) : (base.read input).rest <:+ input := by
  cases found : base.read input with
  | failure rest =>
    rw [base.rest_of_failure input rest found]
    exact List.suffix_refl input
  | success value rest => exact suffix_of_write? (base.write?_of_success input rest value found)

end Primitive

namespace Grammar

/-- Reading leaves a suffix when the grammars of cells do. -/
theorem readWith_leaves {patience : Nat} {enter : Grammar → Input → Run (Match Value)}
    (leaves : ∀ body input, Run.Leaves input (enter body input)) (grammar : Grammar)
    (input : Input) : Run.Leaves input (grammar.readWith patience enter input) := by
  induction grammar generalizing input with
  | primitive base => exact Run.leaves_pure (base.suffix_of_read input)
  | adapt prism body ih =>
    refine (ih input).onSuccess fun representation rest => ?_
    split
    · exact Run.leaves_success _ rest
    · exact Run.leaves_pure (List.suffix_refl rest)
  | sequence first second firstIh secondIh =>
    exact (firstIh input).onSuccess fun _ rest => (secondIh rest).onSuccess fun _ last =>
      Run.leaves_success _ last
  | thenDiscard body mark bodyIh markIh =>
    exact (bodyIh input).onSuccess fun _ rest => (markIh rest).onSuccess fun _ last =>
      Run.leaves_success _ last
  | discardThen mark body markIh bodyIh => exact (markIh input).onSuccess fun _ rest => bodyIh rest
  | choice first second firstIh secondIh =>
    exact ((firstIh input).onSuccess fun _ rest => Run.leaves_success _ rest).onFailure
      ((secondIh input).onSuccess fun _ rest => Run.leaves_success _ rest)
  | many body ih =>
    intro held store found after returned
    obtain ⟨⟨values, rest⟩, middle, looped, returned⟩ := Run.returned_of_bind returned
    obtain ⟨rfl, rfl⟩ := Run.returned_of_pure returned
    exact Run.suffix_of_readMany ih looped
  | replicate capacity count body ih =>
    unfold readWith
    split
    · exact Run.leaves_stop _
    · exact (Run.leaves_readTimes ih count input).onSuccess fun _ rest =>
        Run.leaves_success _ rest
  | dependent determinant next extract captured determinantIh nextIh =>
    exact (determinantIh input).onSuccess fun value rest => nextIh value rest
  | withDefault default body ih =>
    exact (ih input).onFailure (Run.leaves_success _ input)
  | opt body ih =>
    exact ((ih input).onSuccess fun _ rest => Run.leaves_success _ rest).onFailure
      (Run.leaves_success _ input)
  | traced name body ih => exact (ih input).traced _ name _
  | shared cell => exact Run.Leaves.bind fun body => leaves body input
  | handle cell => exact (Run.Leaves.bind fun body => leaves body input).holding {cell}

/-- Every match that a grammar returns carries a suffix of the input. -/
theorem read_leaves (fuel : Nat) (grammar : Grammar) (input : Input) :
    Run.Leaves input (grammar.read fuel input) := by
  induction fuel generalizing grammar input with
  | zero => exact readWith_leaves (fun _ _ => Run.leaves_diverge) grammar input
  | succ fuel ih => exact readWith_leaves ih grammar input

end Grammar

end TwoWayGrammar
