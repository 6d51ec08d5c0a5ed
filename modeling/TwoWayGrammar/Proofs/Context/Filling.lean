import TwoWayGrammar.Proofs.Behaviour.Related

/-! A grammar is a context when its references are taken for places. -/

namespace TwoWayGrammar

/-- Places behave in their own way, whichever kind of reference leads to them. -/
def Interpretation.withPlaces {m : Type → Type} (interpretation : Interpretation m)
    (places : Address → Behaviour m) : Interpretation m :=
  { interpretation with shared := places, handle := places }

namespace Grammar

/-- A context with a part in each of its places. The cells that a dependent grammar captures are those of
the filled one. -/
def fill (parts : Address → Grammar) : Grammar → Grammar
  | primitive base => primitive base
  | adapt prism body => adapt prism (body.fill parts)
  | sequence first second => sequence (first.fill parts) (second.fill parts)
  | thenDiscard body mark => thenDiscard (body.fill parts) (mark.fill parts)
  | discardThen mark body => discardThen (mark.fill parts) (body.fill parts)
  | choice first second => choice (first.fill parts) (second.fill parts)
  | many body => many (body.fill parts)
  | replicate capacity count body => replicate capacity count (body.fill parts)
  | dependent determinant next extract captured =>
    dependent (determinant.fill parts) (fun value => (next value).fill parts) extract captured
  | withDefault default body => withDefault default (body.fill parts)
  | opt body => opt (body.fill parts)
  | traced name body => traced name (body.fill parts)
  | shared place => parts place
  | handle place => parts place

@[simp] theorem fill_between (parts : Address → Grammar) (opening closing body : Grammar) :
    (between opening closing body).fill parts =
      between (opening.fill parts) (closing.fill parts) (body.fill parts) := rfl

@[simp] theorem fill_many1 (parts : Address → Grammar) (body : Grammar) :
    (many1 body).fill parts = many1 (body.fill parts) := rfl

/-- Filling a context is giving a behaviour to its places, over any kind of computation. -/
theorem behaviour_fill {m : Type → Type} [Monad m] [Faulting m] (interpretation : Interpretation m)
    (parts : Address → Grammar) (context : Grammar) :
    (context.fill parts).behaviour interpretation =
      context.behaviour (interpretation.withPlaces fun place =>
        (parts place).behaviour interpretation) := by
  induction context with
  | primitive base => rfl
  | adapt prism body ih => rw [fill, behaviour, ih]; rfl
  | sequence first second firstIh secondIh => rw [fill, behaviour, firstIh, secondIh]; rfl
  | thenDiscard body mark bodyIh markIh => rw [fill, behaviour, bodyIh, markIh]; rfl
  | discardThen mark body markIh bodyIh => rw [fill, behaviour, markIh, bodyIh]; rfl
  | choice first second firstIh secondIh => rw [fill, behaviour, firstIh, secondIh]; rfl
  | many body ih => rw [fill, behaviour, ih]; rfl
  | replicate capacity count body ih => rw [fill, behaviour, ih]; rfl
  | dependent determinant next extract captured determinantIh nextIh =>
    rw [fill, behaviour, determinantIh, funext nextIh]
    rfl
  | withDefault default body ih => rw [fill, behaviour, ih]; rfl
  | opt body ih => rw [fill, behaviour, ih]; rfl
  | traced name body ih => rw [fill, behaviour, ih]; rfl
  | shared place => rfl
  | handle place => rfl

end Grammar

/-- The places of a context run as the parts do with an amount of fuel. -/
def Run.filled (parts : Address → Grammar) (fuel : Nat) : Interpretation Run :=
  (Run.interpretation fuel fun _ => .bottom).withPlaces fun place => (parts place).runs fuel

/-- A filled context runs as the context does when its places run as the parts do. -/
theorem Grammar.runs_fill (parts : Address → Grammar) (fuel : Nat) (context : Grammar) :
    (context.fill parts).runs fuel = context.behaviour (Run.filled parts fuel) := by
  rw [runs_eq, behaviour_fill]
  simp only [← runs_eq]
  rfl

end TwoWayGrammar
