import TwoWayGrammar.Proofs.Run.Compatible
import TwoWayGrammar.Proofs.Run.Inversion

namespace TwoWayGrammar

namespace Run

variable {α β : Type}

/-- The second run ends like the first one wherever the first one ends. -/
def Approximates (α : Type) (run other : Run α) : Prop :=
  ∀ held store, (run held store).1 = .diverged ∨ other held store = run held store

theorem Approximates.refl (run : Run α) : Approximates α run run := fun _ _ => .inr rfl

theorem Approximates.eq_of_ends {run other : Run α} (approximates : Approximates α run other)
    {held : AddressSet} {store after : Store} {outcome : Outcome α}
    (found : run held store = (outcome, after)) (ends : outcome ≠ .diverged) :
    other held store = (outcome, after) := by
  rcases approximates held store with diverged | same
  · rw [found] at diverged
    exact absurd diverged ends
  · rw [same, found]

theorem Approximates.eq_of_returned {run other : Run α} (approximates : Approximates α run other)
    {held : AddressSet} {store after : Store} {result : α}
    (returned : run held store = (.returned result, after)) :
    other held store = (.returned result, after) :=
  approximates.eq_of_ends returned (by simp)

theorem Approximates.bind {run other : Run α} {next following : α → Run β}
    (first : Approximates α run other)
    (second : ∀ result, Approximates β (next result) (following result)) :
    Approximates β (run >>= next) (other >>= following) := by
  intro held store
  rcases found : run held store with ⟨outcome, after⟩
  cases outcome with
  | returned result =>
    rw [bind_of_returned found, bind_of_returned (first.eq_of_returned found)]
    exact second result held after
  | stopped fault =>
    rw [bind_of_stopped found, bind_of_stopped (first.eq_of_ends found (by simp))]
    exact .inr rfl
  | diverged =>
    rw [bind_of_diverged found]
    exact .inl rfl

theorem Approximates.attempt {run other : Run α} (approximates : Approximates α run other) :
    Approximates _ (Run.attempt run) (Run.attempt other) := by
  intro held store
  rcases approximates held store with diverged | same
  · left
    rcases found : run held store with ⟨outcome, after⟩
    rw [found] at diverged
    subst diverged
    simp [Run.attempt, found]
  · right
    simp only [Run.attempt, same]

theorem Approximates.traced (operation name : Text) (ok : α → Bool) {run other : Run α}
    (approximates : Approximates α run other) :
    Approximates α (Run.traced operation name ok run) (Run.traced operation name ok other) :=
  (Approximates.refl _).bind fun _ =>
    approximates.attempt.bind fun _ => Approximates.refl _

theorem Approximates.holding (cells : AddressSet) {run other : Run α}
    (approximates : Approximates α run other) :
    Approximates α (Run.holding cells run) (Run.holding cells other) := by
  intro held store
  rcases approximates (held ∪ cells) store with diverged | same
  · left
    rcases found : run (held ∪ cells) store with ⟨outcome, after⟩
    rw [found] at diverged
    subst diverged
    simp [Run.holding, found]
  · right
    simp only [Run.holding, same]

theorem approximates_compatible : Compatible Approximates where
  diverge _ := fun _ _ => .inl rfl
  pure _ := .refl _
  stop _ := .refl _
  bind first second := first.bind second
  traced operation name ok _ _ approximates := approximates.traced operation name ok
  holding _ _ _ approximates := approximates.holding _
  resolve _ := .refl _

end Run

namespace Grammar

variable {held : AddressSet} {store after : Store} {fuel more : Nat}

/-- Reading that ended ends in the same way with more fuel. -/
theorem read_of_le (enough : fuel ≤ more) {grammar : Grammar} {input : Input}
    {outcome : Outcome (Match Value)}
    (found : grammar.read fuel input held store = (outcome, after)) (ends : outcome ≠ .diverged) :
    grammar.read more input held store = (outcome, after) :=
  (read_compatible Run.approximates_compatible enough grammar input).eq_of_ends found ends

/-- Writing that ended ends in the same way with more fuel. -/
theorem write_of_le (enough : fuel ≤ more) {grammar : Grammar} {value : Value} {rest : Input}
    {outcome : Outcome Input}
    (found : grammar.write fuel value rest held store = (outcome, after))
    (ends : outcome ≠ .diverged) :
    grammar.write more value rest held store = (outcome, after) :=
  (write_compatible Run.approximates_compatible enough grammar value rest).eq_of_ends found ends

end Grammar

end TwoWayGrammar
