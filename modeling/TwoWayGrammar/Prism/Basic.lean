import TwoWayGrammar.Value

namespace TwoWayGrammar

/-- A prism previews a representation as a value and reviews a value as a representation. -/
structure Prism (α β : Type) where
  preview : α → Option β
  review : β → α

/-- A value prism reads values as values. -/
abbrev ValuePrism := Prism Value Value

namespace Prism

variable {α β γ : Type}

/-- An isomorphism previews every representation. -/
def iso (view : α → β) (review : β → α) : Prism α β where
  preview representation := some (view representation)
  review := review

/-- The composite previews through both prisms and reviews in the opposite order. -/
def compose (outer : Prism α β) (inner : Prism β γ) : Prism α γ where
  preview representation := (outer.preview representation).bind inner.preview
  review value := outer.review (inner.review value)

@[simp] theorem preview_iso (view : α → β) (review : β → α) (representation : α) :
    (iso view review).preview representation = some (view representation) := rfl

@[simp] theorem review_iso (view : α → β) (review : β → α) (value : β) :
    (iso view review).review value = review value := rfl

@[simp] theorem preview_compose (outer : Prism α β) (inner : Prism β γ) (representation : α) :
    (outer.compose inner).preview representation =
      (outer.preview representation).bind inner.preview := rfl

@[simp] theorem review_compose (outer : Prism α β) (inner : Prism β γ) (value : γ) :
    (outer.compose inner).review value = outer.review (inner.review value) := rfl

/-- A prism is exact when every value it previews reviews to the representation it came from. -/
def Exact (prism : Prism α β) : Prop :=
  ∀ representation value, prism.preview representation = some value →
    prism.review value = representation

/-- Exactness passes to composites. -/
theorem Exact.compose {outer : Prism α β} {inner : Prism β γ} (outerExact : outer.Exact)
    (innerExact : inner.Exact) : (outer.compose inner).Exact := by
  intro representation value found
  obtain ⟨middle, outerFound, innerFound⟩ := Option.bind_eq_some_iff.mp found
  rw [review_compose, innerExact middle value innerFound,
    outerExact representation middle outerFound]

end Prism

end TwoWayGrammar
