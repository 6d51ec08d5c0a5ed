import TwoWayGrammar.Proofs.Behaviour.Related
import TwoWayGrammar.Proofs.Trace.Recording

namespace TwoWayGrammar

/-- Tracing done in another way, or not at all. -/
def Interpretation.marking {m : Type → Type} (interpretation : Interpretation m)
    (marks : Text → Behaviour m → Behaviour m) : Interpretation m :=
  { interpretation with traced := marks }

namespace Recording

/-- A relation follows recordings by runs when it respects them. A cell gives the recording a grammar and the
run its twin, and the marks are what the run does where the recording keeps a call. -/
structure Followed (twin : Grammar → Grammar) (marks : Text → Behaviour Run → Behaviour Run)
    (related : (α : Type) → Recording α → Run α → Prop) : Prop extends
    Behaviour.Respects related where
  diverge : ∀ {α : Type}, related α (silent Run.diverge) Run.diverge
  holding : ∀ {α : Type} (cell : Address) {recording : Recording α} {run : Run α},
    related α recording run → related α (recording.holding {cell}) (Run.holding {cell} run)
  resolve : ∀ {α : Type} (cell : Address) {next : Grammar → Recording α}
    {following : Grammar → Run α}, (∀ body, related α (next body) (following (twin body))) →
      related α (silent (Run.resolve cell) >>= next) (Run.resolve cell >>= following)
  traced : ∀ (name : Text) {body : Behaviour Recording} {other : Behaviour Run},
    body.Related related other → (called name body).Related related (marks name other)

variable {twin : Grammar → Grammar} {marks : Text → Behaviour Run → Behaviour Run}
  {related : (α : Type) → Recording α → Run α → Prop}

theorem Followed.interpretation (followed : Followed twin marks related) (patience : Nat)
    {enter : Grammar → Behaviour Recording} {other : Grammar → Behaviour Run}
    (entered : ∀ body, (enter body).Related related (other (twin body))) :
    (Recording.interpretation patience enter).Related related
      ((Run.interpretation patience other).marking marks) where
  loop {_ items} same input := by
    have loops := followed.toRespects.readMany same 0 (fun _ => followed.diverge)
      (input.length + 1 + patience) input
    rwa [Nat.add_zero, Behaviour.readMany_run] at loops
  traced name _ _ bodies := followed.traced name bodies
  shared cell :=
    ⟨fun input => followed.resolve cell fun body => (entered body).read input,
      fun value rest => followed.resolve cell fun body => (entered body).write value rest⟩
  handle cell :=
    ⟨fun input => followed.holding cell (followed.resolve cell fun body => (entered body).read input),
      fun value rest =>
        followed.holding cell (followed.resolve cell fun body => (entered body).write value rest)⟩

end Recording

/-- The recordings of a grammar are followed by the runs of its twin, when the twin behaves as the grammar
does with the marks in place of its traces. -/
theorem Grammar.recording_followed {twin : Grammar → Grammar}
    {marks : Text → Behaviour Run → Behaviour Run}
    {related : (α : Type) → Recording α → Run α → Prop}
    (followed : Recording.Followed twin marks related)
    (same : ∀ patience enter grammar, (twin grammar).behaviour (Run.interpretation patience enter) =
      grammar.behaviour ((Run.interpretation patience enter).marking marks))
    (fuel : Nat) (grammar : Grammar) :
    (grammar.recording fuel).Related related ((twin grammar).runs fuel) := by
  induction fuel generalizing grammar with
  | zero =>
    rw [runs_eq, same]
    exact behaviour_related followed.toRespects (followed.interpretation 0 fun _ =>
      ⟨fun _ => followed.diverge, fun _ _ => followed.diverge⟩) grammar
  | succ fuel ih =>
    rw [runs_eq, same]
    exact behaviour_related followed.toRespects (followed.interpretation (fuel + 1) ih) grammar

end TwoWayGrammar
