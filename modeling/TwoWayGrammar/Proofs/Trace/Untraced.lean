import TwoWayGrammar.Proofs.Store.Conversion

namespace TwoWayGrammar

/-- A grammar without traced parts has the bodies of the traced grammars in their places. -/
def Grammar.untraced : Grammar → Grammar
  | primitive base => primitive base
  | adapt prism body => adapt prism body.untraced
  | sequence first second => sequence first.untraced second.untraced
  | thenDiscard body mark => thenDiscard body.untraced mark.untraced
  | discardThen mark body => discardThen mark.untraced body.untraced
  | choice first second => choice first.untraced second.untraced
  | many body => many body.untraced
  | replicate capacity count body => replicate capacity count body.untraced
  | dependent determinant next extract captured =>
    dependent determinant.untraced (fun value => (next value).untraced) extract captured
  | withDefault default body => withDefault default body.untraced
  | opt body => opt body.untraced
  | traced _ body => body.untraced
  | shared cell => shared cell
  | handle cell => handle cell

theorem Grammar.owned_untraced (grammar : Grammar) : grammar.untraced.owned = grammar.owned := by
  induction grammar with
  | primitive base => rfl
  | adapt prism body ih => exact ih
  | sequence first second firstIh secondIh => rw [untraced, owned, owned, firstIh, secondIh]
  | thenDiscard body mark bodyIh markIh => rw [untraced, owned, owned, bodyIh, markIh]
  | discardThen mark body markIh bodyIh => rw [untraced, owned, owned, markIh, bodyIh]
  | choice first second firstIh secondIh => rw [untraced, owned, owned, firstIh, secondIh]
  | many body ih => exact ih
  | replicate capacity count body ih => exact ih
  | dependent determinant next extract captured determinantIh nextIh =>
    rw [untraced, owned, owned, determinantIh]
  | withDefault default body ih => exact ih
  | opt body ih => exact ih
  | traced name body ih => exact ih
  | shared cell => rfl
  | handle cell => rfl

/-- Nothing is left to leave out. -/
@[simp] theorem Grammar.untraced_untraced (grammar : Grammar) :
    grammar.untraced.untraced = grammar.untraced := by
  induction grammar <;> simp_all only [untraced]

namespace Definition

/-- A definition without traced parts builds grammars without them. -/
def untraced : Definition → Definition
  | primitive base => primitive base
  | adapt prism body => adapt prism body.untraced
  | sequence first second => sequence first.untraced second.untraced
  | thenDiscard body mark => thenDiscard body.untraced mark.untraced
  | discardThen mark body => discardThen mark.untraced body.untraced
  | between opening closing body => between opening.untraced closing.untraced body.untraced
  | choice first second => choice first.untraced second.untraced
  | many body => many body.untraced
  | many1 body => many1 body.untraced
  | replicate count body capacity => replicate count body.untraced capacity
  | dependent determinant parts next extract =>
    dependent determinant.untraced (fun part => (parts part).untraced)
      (fun built value => (next built value).untraced) extract
  | withDefault default body => withDefault default body.untraced
  | opt body => opt body.untraced
  | traced _ body => body.untraced
  | deferred failures message body => deferred failures message body.untraced
  | recursive exposure name body => recursive exposure name body.untraced
  | named name => named name
  | self name => self name

/-- What a dependent definition makes of its parts does not depend on whether they are traced. A grammar
can be run but not looked into, so no choice of the rest can depend on that. -/
def Uniform : Definition → Prop
  | primitive _ => True
  | adapt _ body => body.Uniform
  | sequence first second => first.Uniform ∧ second.Uniform
  | thenDiscard body mark => body.Uniform ∧ mark.Uniform
  | discardThen mark body => mark.Uniform ∧ body.Uniform
  | between opening closing body => opening.Uniform ∧ closing.Uniform ∧ body.Uniform
  | choice first second => first.Uniform ∧ second.Uniform
  | many body => body.Uniform
  | many1 body => body.Uniform
  | replicate _ body _ => body.Uniform
  | dependent determinant parts next _ =>
    determinant.Uniform ∧ (∀ part, (parts part).Uniform) ∧
      ∀ built value, (next (fun part => (built part).untraced) value).untraced =
        (next built value).untraced
  | withDefault _ body => body.Uniform
  | opt body => body.Uniform
  | traced _ body => body.Uniform
  | deferred _ _ body => body.Uniform
  | recursive _ _ body => body.Uniform
  | named _ => True
  | self _ => True

end Definition

namespace Definition

/-- A count, a repetition and a selection look at the value only. -/
theorem uniform_counted {determinant body : Definition} (extract : Value → Value)
    (capacity : Capacity) (first : determinant.Uniform) (second : body.Uniform) :
    (counted determinant body extract capacity).Uniform :=
  ⟨first, fun _ => second, fun _ _ => by simp [Grammar.counted, Grammar.untraced]⟩

theorem uniform_countedAs {determinant body : Definition} (prism : ValuePrism)
    (extract : Value → Value) (capacity : Capacity) (first : determinant.Uniform)
    (second : body.Uniform) : (countedAs determinant body prism extract capacity).Uniform :=
  ⟨first, fun _ => second, fun _ _ => by simp [Grammar.counted, Grammar.untraced]⟩

theorem uniform_repeated {determinant : Definition} (extract : Value → Value)
    (first : determinant.Uniform) : (repeated determinant extract).Uniform :=
  ⟨first, fun part => part.elim0, fun _ _ => rfl⟩

theorem uniform_selected {determinant other : Definition} {rows : List (Value × Definition)}
    (extract : Value → Value) (first : determinant.Uniform)
    (branches : ∀ row ∈ rows, row.2.Uniform) (last : other.Uniform) :
    (selected determinant rows other extract).Uniform := by
  refine ⟨first, fun part => ?_, fun built value => ?_⟩
  · rcases found : rows[part.val]? with _ | row
    · simpa [found] using last
    · simpa [found] using branches row (List.mem_of_getElem? found)
  · exact Grammar.untraced_untraced _

end Definition

/-- Leaving out the traced parts is a conversion of the definitions that are uniform. -/
def Conversion.untraced : Conversion where
  grammar := Grammar.untraced
  shared _ := rfl
  handle _ := rfl
  owned := Grammar.owned_untraced
  definition := Definition.untraced
  allows := Definition.Uniform

namespace Definition

open Run

/-- A uniform definition builds the same in the store without traced parts. -/
theorem builds_untraced (log : TraceLog) : Conversion.untraced.Builds log := by
  intro definition scope uniform
  change Echoes Conversion.untraced log Conversion.untraced.built (definition.build scope)
    (definition.untraced.build scope)
  have returns {built other : Built} (same : built.grammar.untraced = other.grammar) :
      Echoes Conversion.untraced log Conversion.untraced.built (pure built) (pure other) :=
    echoes_return (Conversion.built_eq same)
  induction definition generalizing scope with
  | primitive base => exact returns rfl
  | adapt prism body ih => exact (ih scope uniform).bind fun _ => returns rfl
  | sequence first second firstIh secondIh =>
    exact (firstIh scope uniform.1).bind fun _ => (secondIh scope uniform.2).bind fun _ => returns rfl
  | thenDiscard body mark bodyIh markIh =>
    exact (bodyIh scope uniform.1).bind fun _ => (markIh scope uniform.2).bind fun _ => returns rfl
  | discardThen mark body markIh bodyIh =>
    exact (markIh scope uniform.1).bind fun _ => (bodyIh scope uniform.2).bind fun _ => returns rfl
  | between opening closing body openingIh closingIh bodyIh =>
    exact (openingIh scope uniform.1).bind fun _ => (closingIh scope uniform.2.1).bind fun _ =>
      (bodyIh scope uniform.2.2).bind fun _ => returns rfl
  | choice first second firstIh secondIh =>
    exact (firstIh scope uniform.1).bind fun _ => (secondIh scope uniform.2).bind fun _ => returns rfl
  | many body ih => exact (ih scope uniform).bind fun _ => returns rfl
  | many1 body ih => exact (ih scope uniform).bind fun _ => returns rfl
  | replicate count body capacity ih => exact (ih scope uniform).bind fun _ => returns rfl
  | dependent determinant parts next extract determinantIh partsIh =>
    refine (determinantIh scope uniform.1).bind fun _ =>
      (echoes_family fun part => partsIh part scope (uniform.2.1 part)).bind fun built => returns ?_
    change Grammar.dependent _ _ extract _ = Grammar.dependent _ _ extract _
    congr 1
    funext value
    exact (uniform.2.2 (fun part => (built part).grammar) value).symm
  | withDefault default body ih => exact (ih scope uniform).bind fun _ => returns rfl
  | opt body ih => exact (ih scope uniform).bind fun _ => returns rfl
  | traced name body ih =>
    have wrapped := (ih scope uniform).bind fun built =>
      @returns (.wrap (.traced name) (fun _ => rfl) built) _ rfl
    rwa [bind_pure] at wrapped
  | deferred failures message body ih =>
    exact build_deferred_echoes failures message (show Conversion.untraced.allows body from uniform)
      scope
  | recursive exposure name body ih =>
    exact build_recursive_echoes exposure name (fun scope => ih scope uniform) scope
  | named name => exact build_named_echoes name scope
  | self name => exact build_self_echoes name scope

end Definition

end TwoWayGrammar
