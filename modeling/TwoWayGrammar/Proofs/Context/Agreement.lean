import TwoWayGrammar.Proofs.Context.Filling
import TwoWayGrammar.Proofs.Grammar.Finding
import TwoWayGrammar.Proofs.Run.Ending

namespace TwoWayGrammar

/-- A computation of this kind is a run for every amount of fuel. -/
def Deepening (α : Type) : Type := Nat → Run α

namespace Deepening

instance : Monad Deepening where
  pure result := fun _ => pure result
  bind first next := fun fuel => first fuel >>= fun result => next result fuel

instance : Faulting Deepening := ⟨fun fault _ => Run.stop fault, fun _ => Run.diverge⟩

/-- A run at one amount of fuel. -/
def At (fuel : Nat) (α : Type) (runs : Deepening α) (run : Run α) : Prop := runs fuel = run

theorem at_respects (fuel : Nat) : Behaviour.Respects (At fuel) where
  pure _ := rfl
  stop _ := rfl
  bind {_ _ first other next following} same further := by
    change first fuel >>= (fun result => next result fuel) = other >>= following
    rw [show first fuel = other from same]
    exact bind_congr further

/-- Loops are as patient as there is fuel, and places run as the parts do with all of it. -/
def filled (parts : Address → Grammar) : Interpretation Deepening :=
  let places (place : Address) : Behaviour Deepening :=
    ⟨fun input fuel => (parts place).read fuel input,
      fun value rest fuel => (parts place).write fuel value rest⟩
  { loop := fun item input fuel => Behaviour.readMany item (input.length + 1 + fuel) input fuel
    traced := fun name body =>
      ⟨fun input fuel => Run.traced "match".toList name Match.accepted (body.read input fuel),
        fun value rest fuel =>
          Run.traced "construct".toList name (fun _ => true) (body.write value rest fuel)⟩
    shared := places
    handle := places }

theorem readMany_apply (item : Input → Deepening (Match Value)) (attempts : Nat) (input : Input)
    (fuel : Nat) : Behaviour.readMany item attempts input fuel =
      Run.readMany (fun input => item input fuel) attempts input := by
  rw [← Behaviour.readMany_run]
  exact (at_respects fuel).readMany (fun _ => rfl) 0 (fun _ => rfl) attempts input

theorem filled_at (parts : Address → Grammar) (fuel : Nat) :
    (filled parts).Related (At fuel) (Run.filled parts fuel) where
  loop {item other} items input := by
    obtain rfl : other = fun input => item input fuel := funext fun input => (items input).symm
    exact readMany_apply item (input.length + 1 + fuel) input fuel
  traced name {_ _} bodies := by
    refine ⟨fun input => ?_, fun value rest => ?_⟩
    · exact congrArg (Run.traced "match".toList name Match.accepted) (bodies.read input)
    · exact congrArg (Run.traced "construct".toList name fun _ => true) (bodies.write value rest)
  shared _ := ⟨fun _ => rfl, fun _ _ => rfl⟩
  handle _ := ⟨fun _ => rfl, fun _ _ => rfl⟩

end Deepening

/-- Alike stores stay alike when an operation is logged in both of them. The log of the second one refuses
nothing. -/
structure Likeness (alike : Store → Store → Prop) : Prop where
  quiet : ∀ {store now}, alike store now → now.Quiet
  enter : ∀ {store now operation name one other}, alike store now →
    store.log.enter operation name = .ok one → now.log.enter operation name = .ok other →
      alike { store with log := one } { now with log := other }
  leave : ∀ {store now operation name ok one other}, alike store now →
    store.log.leave operation name ok = .ok one → now.log.leave operation name ok = .ok other →
      alike { store with log := one } { now with log := other }

variable {alike : Store → Store → Prop} {held : AddressSet} {α : Type}

namespace Deepening

/-- What the run returns, the others settle on in an alike store, and they lead to an alike one. -/
def Follows (alike : Store → Store → Prop) (held : AddressSet) (α : Type) (run : Run α)
    (others : Deepening α) : Prop :=
  ∀ ⦃store now result after⦄, alike store now → run held store = (.returned result, after) →
    ∃ last, alike after last ∧ Run.Settles others held now (.returned result) last

theorem follows_respects (alike : Store → Store → Prop) (held : AddressSet) :
    Behaviour.Respects (Follows alike held) where
  pure result store now _ _ same returned := by
    obtain ⟨rfl, rfl⟩ := Run.returned_of_pure returned
    exact ⟨now, same, 0, fun _ _ => rfl⟩
  stop fault store now _ _ _ returned := by simp [Faulting.stop, Run.stop] at returned
  bind {_ _ first other next following} one further store now result after same returned := by
    obtain ⟨value, middle, begun, ended⟩ := Run.returned_of_bind returned
    obtain ⟨between, close, enough, ran⟩ := one same begun
    obtain ⟨last, final, more, runs⟩ := further value close ended
    refine ⟨last, final, max enough more, fun fuel plenty => ?_⟩
    exact (Run.bind_of_returned (ran fuel (by omega))).trans (runs fuel (by omega))

/-- With more fuel a loop has more attempts, and it returns what it has returned without them. -/
theorem follows_loop (alike : Store → Store → Prop) (held : AddressSet) (patience : Nat)
    (parts : Address → Grammar) :
    Behaviour.Loop.Related (Follows alike held)
      (fun item input => Run.readMany item (input.length + 1 + patience) input) (filled parts).loop := by
  intro item other items input store now result after same returned
  have follows := (follows_respects alike held).readMany items 0
    (fun _ _ _ _ _ _ returned => by simp [Faulting.diverge, Run.diverge] at returned)
    (input.length + 1 + patience) input
  rw [Behaviour.readMany_run] at follows
  obtain ⟨last, close, enough, ran⟩ := follows same returned
  refine ⟨last, close, max enough patience, fun fuel plenty => ?_⟩
  have looped := ran fuel (by omega)
  rw [readMany_apply] at looped
  change Behaviour.readMany other (input.length + 1 + fuel) input fuel held now = _
  rw [readMany_apply]
  exact (Run.approximates_compatible.readMany (fun _ => .refl _)
    (show input.length + 1 + patience + 0 ≤ input.length + 1 + fuel by omega) input).eq_of_returned looped

/-- What is logged around a part leaves the stores alike. -/
theorem follows_traced (likeness : Likeness alike) (operation name : Text) (ok : α → Bool) {run : Run α}
    {others : Deepening α} (follows : Follows alike held α run others) :
    Follows alike held α (Run.traced operation name ok run)
      fun fuel => Run.traced operation name ok (others fuel) := by
  intro store now result after same returned
  obtain ⟨entered, left, closed, opened, ran, logged, rfl⟩ := Run.returned_of_traced returned
  obtain ⟨reentered, reopened⟩ := now.log.enter_of_quiet (likeness.quiet same) operation name
  obtain ⟨last, close, enough, settles⟩ := follows (likeness.enter same opened reopened) ran
  obtain ⟨reclosed, relogged⟩ := last.log.leave_of_quiet (likeness.quiet close) operation name (ok result)
  refine ⟨_, likeness.leave close logged relogged, enough, fun fuel plenty => ?_⟩
  show Run.traced operation name ok (others fuel) held now = _
  simp only [Run.traced_apply, reopened, settles fuel plenty, relogged]

end Deepening

namespace Grammar

/-- From alike stores the second grammar comes to whatever the first one returns, and leads to alike stores.
Where the first one stops with a fault, nothing is asked of the second. -/
structure Agrees (alike : Store → Store → Prop) (held : AddressSet) (one other : Grammar) : Prop where
  finds : ∀ {store now input found after}, alike store now →
    Finds held store one input found after →
      ∃ last, alike after last ∧ Finds held now other input found last
  puts : ∀ {store now value rest text after}, alike store now →
    Puts held store one value rest text after →
      ∃ last, alike after last ∧ Puts held now other value rest text last

variable {parts others : Address → Grammar}

theorem Agrees.follows {one other : Grammar} (agrees : Agrees alike held one other) (fuel : Nat) :
    (one.runs fuel).Related (Deepening.Follows alike held)
      ⟨fun input fuel => other.read fuel input, fun value rest fuel => other.write fuel value rest⟩ where
  read input store now found after same returned := by
    obtain ⟨last, close, finds⟩ := agrees.finds same ⟨fuel, returned⟩
    exact ⟨last, close, finds.enough⟩
  write value rest store now text after same returned := by
    obtain ⟨last, close, puts⟩ := agrees.puts same ⟨fuel, returned⟩
    exact ⟨last, close, puts.enough⟩

/-- A context with the other parts follows what it returns with the first ones. -/
theorem fill_follows (likeness : Likeness alike)
    (agrees : ∀ place, Agrees alike held (parts place) (others place)) (context : Grammar) (fuel : Nat) :
    ((context.fill parts).runs fuel).Related (Deepening.Follows alike held)
      (context.behaviour (Deepening.filled others)) := by
  rw [runs_fill]
  refine behaviour_related (Deepening.follows_respects alike held) ?_ context
  refine ⟨Deepening.follows_loop alike held fuel others, fun name {_ _} bodies => ?_, ?_, ?_⟩
  · exact ⟨fun input => Deepening.follows_traced likeness _ name _ (bodies.read input),
      fun value rest => Deepening.follows_traced likeness _ name _ (bodies.write value rest)⟩
  · exact fun place => (agrees place).follows fuel
  · exact fun place => (agrees place).follows fuel

theorem deepening_fill (parts : Address → Grammar) (context : Grammar) :
    context.behaviour (Deepening.filled parts) =
      ⟨fun input fuel => (context.fill parts).read fuel input,
        fun value rest fuel => (context.fill parts).write fuel value rest⟩ := by
  have same (fuel : Nat) := behaviour_related (Deepening.at_respects fuel) (Deepening.filled_at parts fuel)
    context
  simp only [← runs_fill] at same
  ext input
  · exact funext fun fuel => (same fuel).read input
  · exact funext fun fuel => (same fuel).write _ _

/-- Parts that agree make contexts that agree. -/
theorem agrees_fill (likeness : Likeness alike)
    (agrees : ∀ place, Agrees alike held (parts place) (others place)) (context : Grammar) :
    Agrees alike held (context.fill parts) (context.fill others) where
  finds {store now input found after} same finds := by
    obtain ⟨fuel, returned⟩ := finds
    have follows := fill_follows likeness agrees context fuel
    rw [deepening_fill] at follows
    obtain ⟨last, close, enough, settles⟩ := follows.read input same returned
    exact ⟨last, close, enough, settles enough (Nat.le_refl enough)⟩
  puts {store now value rest text after} same puts := by
    obtain ⟨fuel, returned⟩ := puts
    have follows := fill_follows likeness agrees context fuel
    rw [deepening_fill] at follows
    obtain ⟨last, close, enough, settles⟩ := follows.write value rest same returned
    exact ⟨last, close, enough, settles enough (Nat.le_refl enough)⟩

end Grammar

end TwoWayGrammar
