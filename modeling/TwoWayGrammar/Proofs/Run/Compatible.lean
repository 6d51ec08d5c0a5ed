import TwoWayGrammar.Proofs.Behaviour.Related

namespace TwoWayGrammar

namespace Run

/-- A compatible relation respects runs, holds between a run without end and every run, and passes through
what is logged and held around a run. -/
structure Compatible (related : (α : Type) → Run α → Run α → Prop) : Prop extends
    Behaviour.Respects related where
  diverge : ∀ {α : Type} (run : Run α), related α Run.diverge run
  traced : ∀ {α : Type} (operation name : Text) (ok : α → Bool) {run other : Run α},
    related α run other → related α (Run.traced operation name ok run)
      (Run.traced operation name ok other)
  holding : ∀ {α : Type} (cell : Address) {run other : Run α},
    related α run other → related α (Run.holding {cell} run) (Run.holding {cell} other)
  resolve : ∀ cell : Address, related Grammar (Run.resolve cell) (Run.resolve cell)

namespace Compatible

variable {related : (α : Type) → Run α → Run α → Prop} {α β : Type}

theorem onSuccess (compatible : Compatible related) {found other : Run (Match α)}
    {next following : α → Input → Run (Match β)} (first : related _ found other)
    (second : ∀ value rest, related _ (next value rest) (following value rest)) :
    related _ (Run.onSuccess found next) (Run.onSuccess other following) :=
  compatible.toRespects.onSuccess first second

/-- A loop with more attempts is related to a loop with fewer. -/
theorem readMany (compatible : Compatible related) {item other : Input → Run (Match α)}
    (items : ∀ input, related _ (item input) (other input)) {attempts more : Nat}
    (enough : attempts ≤ more) (input : Input) :
    related _ (Run.readMany item attempts input) (Run.readMany other more input) := by
  obtain ⟨extra, rfl⟩ := Nat.exists_eq_add_of_le enough
  have loops := compatible.toRespects.readMany items extra (fun _ => compatible.diverge _) attempts input
  rwa [Behaviour.readMany_run, Behaviour.readMany_run] at loops

theorem readTimes (compatible : Compatible related) {item other : Input → Run (Match α)}
    (items : ∀ input, related _ (item input) (other input)) (times : Nat) (input : Input) :
    related _ (Run.readTimes item times input) (Run.readTimes other times input) := by
  have loops := compatible.toRespects.readTimes items times input
  rwa [Behaviour.readTimes_run, Behaviour.readTimes_run] at loops

theorem writeEach (compatible : Compatible related) {item other : α → Input → Run Input}
    (items : ∀ value rest, related _ (item value rest) (other value rest)) (values : List α)
    (rest : Input) :
    related _ (Run.writeEach item values rest) (Run.writeEach other values rest) := by
  have loops := compatible.toRespects.writeEach items values rest
  rwa [Behaviour.writeEach_run, Behaviour.writeEach_run] at loops

/-- More patience is related to less, when the entries into cells are. -/
theorem interpretation (compatible : Compatible related) {patience more : Nat}
    (enough : patience ≤ more) {enter other : Grammar → Behaviour Run}
    (entered : ∀ body, (enter body).Related related (other body)) :
    (Run.interpretation patience enter).Related related (Run.interpretation more other) where
  loop items input := compatible.readMany items (by omega) input
  traced name _ _ bodies :=
    ⟨fun input => compatible.traced _ name _ (bodies.read input),
      fun value rest => compatible.traced _ name _ (bodies.write value rest)⟩
  shared cell :=
    ⟨fun input => compatible.bind (compatible.resolve cell) fun body => (entered body).read input,
      fun value rest =>
        compatible.bind (compatible.resolve cell) fun body => (entered body).write value rest⟩
  handle cell :=
    ⟨fun input => compatible.holding cell
        (compatible.bind (compatible.resolve cell) fun body => (entered body).read input),
      fun value rest => compatible.holding cell
        (compatible.bind (compatible.resolve cell) fun body => (entered body).write value rest)⟩

end Compatible

end Run

namespace Grammar

variable {related : (α : Type) → Run α → Run α → Prop}

/-- Reading with more patience is related to reading with less, when the entries into cells are. -/
theorem readWith_compatible (compatible : Run.Compatible related) {patience more : Nat}
    (enough : patience ≤ more) {enter other : Grammar → Input → Run (Match Value)}
    (entered : ∀ grammar input, related _ (enter grammar input) (other grammar input))
    (grammar : Grammar) (input : Input) :
    related _ (grammar.readWith patience enter input) (grammar.readWith more other input) := by
  -- Reading does not look at the entries for writing, so these may as well go on without end.
  let both (entry : Grammar → Input → Run (Match Value)) (body : Grammar) : Behaviour Run :=
    ⟨entry body, fun _ _ => Run.diverge⟩
  have entries (body : Grammar) : (both enter body).Related related (both other body) :=
    ⟨entered body, fun _ _ => compatible.diverge _⟩
  have same := grammar.behaviour_related compatible.toRespects
    (compatible.interpretation enough entries)
  rw [behaviour_interpretation, behaviour_interpretation] at same
  exact same.read input

/-- Both directions with more fuel are related to those with less. -/
theorem runs_compatible (compatible : Run.Compatible related) {fuel more : Nat}
    (enough : fuel ≤ more) (grammar : Grammar) :
    (grammar.runs fuel).Related related (grammar.runs more) := by
  induction fuel generalizing more grammar with
  | zero =>
    rw [runs_eq, runs_eq]
    exact behaviour_related compatible.toRespects (compatible.interpretation enough fun _ =>
      ⟨fun _ => compatible.diverge _, fun _ _ => compatible.diverge _⟩) grammar
  | succ fuel ih =>
    obtain ⟨more, rfl⟩ : ∃ fewer, more = fewer + 1 := ⟨more - 1, by omega⟩
    rw [runs_eq, runs_eq]
    exact behaviour_related compatible.toRespects
      (compatible.interpretation enough fun body => ih (by omega) body) grammar

theorem read_compatible (compatible : Run.Compatible related) {fuel more : Nat}
    (enough : fuel ≤ more) (grammar : Grammar) (input : Input) :
    related _ (grammar.read fuel input) (grammar.read more input) :=
  (runs_compatible compatible enough grammar).read input

theorem write_compatible (compatible : Run.Compatible related) {fuel more : Nat}
    (enough : fuel ≤ more) (grammar : Grammar) (value : Value) (rest : Input) :
    related _ (grammar.write fuel value rest) (grammar.write more value rest) :=
  (runs_compatible compatible enough grammar).write value rest

end Grammar

end TwoWayGrammar
