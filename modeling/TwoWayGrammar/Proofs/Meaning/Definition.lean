import Mathlib.Logic.Function.Basic
import TwoWayGrammar.Definition.Basic
import TwoWayGrammar.Proofs.Meaning.Fuelled

namespace TwoWayGrammar

open Behaviour

/-- Cells have meanings, and tracing adds nothing. -/
def Meaning.interpretation (cells : Address → Meaning) : Interpretation Fuelled where
  loop := Fuelled.loop
  traced _ body := body
  shared := cells
  handle := cells

/-- The place of a part in what is picked by a value. -/
def Grammar.place {arity : Nat} (part : Fin arity) : Grammar := .shared part

/-- The places of parts behave like the parts. -/
def Interpretation.withParts {m : Type → Type} [Faulting m] (interpretation : Interpretation m)
    {arity : Nat} (parts : Fin arity → Behaviour m) : Interpretation m :=
  { interpretation with
    shared := fun cell => if inside : cell < arity then parts ⟨cell, inside⟩ else .bottom
    handle := fun _ => .bottom }

theorem Interpretation.withParts_place {m : Type → Type} [Faulting m]
    (interpretation : Interpretation m) {arity : Nat} (parts : Fin arity → Behaviour m)
    (part : Fin arity) : (interpretation.withParts parts).shared part = parts part := by
  simp [withParts]

theorem Interpretation.withParts_related {m n : Type → Type} [Monad m] [Faulting m] [Monad n]
    [Faulting n]
    {related : (α : Type) → m α → n α → Prop}
    (ends : ∀ {α : Type}, related α Faulting.diverge Faulting.diverge)
    {first : Interpretation m} {second : Interpretation n}
    (loops : Loop.Related related first.loop second.loop)
    (traced : ∀ (name : Text) {body : Behaviour m} {other : Behaviour n},
      body.Related related other →
        (first.traced name body).Related related (second.traced name other))
    {arity : Nat} {parts : Fin arity → Behaviour m} {others : Fin arity → Behaviour n}
    (each : ∀ part, (parts part).Related related (others part)) :
    (first.withParts parts).Related related (second.withParts others) where
  loop := loops
  traced := traced
  shared cell := by
    unfold withParts
    dsimp only
    split
    · exact each _
    · exact .bottom ends
  handle _ := .bottom ends

/-- A grammar that is picked by a value is parametric in the parts when it uses them only by running
them. -/
def Parametric {arity : Nat} (next : (Fin arity → Grammar) → Value → Grammar) : Prop :=
  ∀ {m : Type → Type} [Monad m] [Faulting m] (interpretation : Interpretation m)
    (parts : Fin arity → Grammar) (value : Value),
    (next parts value).behaviour interpretation =
      (next Grammar.place value).behaviour
        (interpretation.withParts fun part => (parts part).behaviour interpretation)

theorem parametric_counted (capacity : Capacity) :
    Parametric fun (built : Fin 1 → Grammar) => Grammar.counted capacity (built 0) := by
  intro m _ _ interpretation parts value
  change Behaviour.replicate capacity value.count _ =
    .replicate capacity value.count ((interpretation.withParts _).shared ((0 : Fin 1) : Nat))
  rw [interpretation.withParts_place]

theorem parametric_countedAs (capacity : Capacity) (prism : ValuePrism) :
    Parametric fun (built : Fin 1 → Grammar) value =>
      .adapt prism (Grammar.counted capacity (built 0) value) := by
  intro m _ _ interpretation parts value
  exact congrArg (Behaviour.adapt prism) (parametric_counted capacity interpretation parts value)

theorem parametric_repeated : Parametric fun (_ : Fin 0 → Grammar) => Grammar.repeated := by
  intro m _ _ interpretation parts value
  cases value <;> rfl

theorem parametric_selected (keys : List Value) :
    Parametric fun built => Grammar.selected keys built := by
  intro m _ _ interpretation parts value
  change _ = (interpretation.withParts _).shared (Fin.val _)
  rw [interpretation.withParts_place]
  rfl

namespace Definition

/-- The meaning of a definition, where names stand for the eager meanings, and for the late ones in what
is built later. -/
def meaning (late : Text → Meaning) : Definition → (eager scope : Text → Meaning) → Meaning
  | primitive base, _, _ => .primitive base
  | adapt prism body, eager, scope => .adapt prism (body.meaning late eager scope)
  | sequence first second, eager, scope =>
    .sequence (first.meaning late eager scope) (second.meaning late eager scope)
  | thenDiscard body mark, eager, scope =>
    .thenDiscard (body.meaning late eager scope) (mark.meaning late eager scope)
  | discardThen mark body, eager, scope =>
    .discardThen (mark.meaning late eager scope) (body.meaning late eager scope)
  | between opening closing body, eager, scope =>
    .discardThen (opening.meaning late eager scope)
      (.thenDiscard (body.meaning late eager scope) (closing.meaning late eager scope))
  | choice first second, eager, scope =>
    .choice (first.meaning late eager scope) (second.meaning late eager scope)
  | many body, eager, scope => .many Fuelled.loop (body.meaning late eager scope)
  | many1 body, eager, scope =>
    .adapt Prism.pairAsNonEmpty (.sequence (body.meaning late eager scope)
      (.many Fuelled.loop (body.meaning late eager scope)))
  | replicate count body capacity, eager, scope => .replicate capacity count (body.meaning late eager scope)
  | dependent determinant parts next extract, eager, scope =>
    .dependent (determinant.meaning late eager scope)
      (fun value => (next Grammar.place value).behaviour
        ((Meaning.interpretation fun _ => .bottom).withParts fun part =>
          (parts part).meaning late eager scope))
      extract
  | withDefault default body, eager, scope => .withDefault default (body.meaning late eager scope)
  | opt body, eager, scope => .opt (body.meaning late eager scope)
  | traced _ body, eager, scope => body.meaning late eager scope
  | deferred _ _ body, _, scope => (body.meaning late late scope).deeper
  | recursive _ name body, eager, scope =>
    Meaning.solve (fun self (_ : Unit) =>
      (body.meaning late eager (Function.update scope name (self ()))).deeper) ()
  | named name, eager, _ => eager name
  | self name, _, scope => scope name

/-- A regular definition always builds, and always the same. Names stand for grammars that are there
when it is built, factories succeed, and no name that others use is redefined. -/
def Regular (known : List Text) : Definition → (eager bound : List Text) → Prop
  | primitive _, _, _ => True
  | adapt _ body, eager, bound => body.Regular known eager bound
  | sequence first second, eager, bound =>
    first.Regular known eager bound ∧ second.Regular known eager bound
  | thenDiscard body mark, eager, bound =>
    body.Regular known eager bound ∧ mark.Regular known eager bound
  | discardThen mark body, eager, bound =>
    mark.Regular known eager bound ∧ body.Regular known eager bound
  | between opening closing body, eager, bound =>
    opening.Regular known eager bound ∧ closing.Regular known eager bound ∧
      body.Regular known eager bound
  | choice first second, eager, bound =>
    first.Regular known eager bound ∧ second.Regular known eager bound
  | many body, eager, bound => body.Regular known eager bound
  | many1 body, eager, bound => body.Regular known eager bound
  | replicate _ body _, eager, bound => body.Regular known eager bound
  | dependent determinant parts next _, eager, bound =>
    determinant.Regular known eager bound ∧ (∀ part, (parts part).Regular known eager bound) ∧
      Parametric next
  | withDefault _ body, eager, bound => body.Regular known eager bound
  | opt body, eager, bound => body.Regular known eager bound
  | traced _ body, eager, bound => body.Regular known eager bound
  | deferred failures _ body, _, bound => failures = 0 ∧ body.Regular known known bound
  | recursive exposure name body, eager, bound =>
    exposure ≠ .premature ∧ (exposure = .published → name ∉ known) ∧
      body.Regular known eager (name :: bound)
  | named name, eager, _ => name ∈ eager
  | self name, _, bound => name ∈ bound

variable {known eager bound : List Text} {late late' eagers eagers' scope scope' : Text → Meaning}

/-- What names stand for stays related when one of them gets new meanings that are related. -/
theorem update_related {relation : Meaning → Meaning → Prop} {name : Text} {meaning meaning' : Meaning}
    (same : relation meaning meaning') {other : Text}
    (others : other ≠ name → relation (scope other) (scope' other)) :
    relation (Function.update scope name meaning other) (Function.update scope' name meaning' other) := by
  by_cases inner : other = name
  · subst inner
    rw [Function.update_self, Function.update_self]
    exact same
  · rw [Function.update_of_ne inner, Function.update_of_ne inner]
    exact others inner

/-- Meanings agree as far as what names and handles stand for agrees. Late names matter only after some
fuel is spent. -/
theorem meaning_below {definition : Definition} (regular : definition.Regular known eager bound)
    {limit : Nat} (lates : ∀ name ∈ known, Meaning.Below limit (late name) (late' name))
    (names : ∀ name ∈ eager, Meaning.Below (limit + 1) (eagers name) (eagers' name))
    (handles : ∀ name ∈ bound, Meaning.Below (limit + 1) (scope name) (scope' name)) :
    Meaning.Below (limit + 1) (definition.meaning late eagers scope)
      (definition.meaning late' eagers' scope') := by
  have respects (limit : Nat) := Fuelled.below_respects limit
  induction definition generalizing eager bound eagers eagers' scope scope' limit with
  | primitive base => exact .primitive (respects _) base
  | adapt prism body ih => exact .adapt (respects _) prism (ih regular lates names handles)
  | sequence first second firstIh secondIh =>
    exact .sequence (respects _) (firstIh regular.1 lates names handles)
      (secondIh regular.2 lates names handles)
  | thenDiscard body mark bodyIh markIh =>
    exact .thenDiscard (respects _) (bodyIh regular.1 lates names handles)
      (markIh regular.2 lates names handles)
  | discardThen mark body markIh bodyIh =>
    exact .discardThen (respects _) (markIh regular.1 lates names handles)
      (bodyIh regular.2 lates names handles)
  | between opening closing body openingIh closingIh bodyIh =>
    exact .discardThen (respects _) (openingIh regular.1 lates names handles)
      (.thenDiscard (respects _) (bodyIh regular.2.2 lates names handles)
        (closingIh regular.2.1 lates names handles))
  | choice first second firstIh secondIh =>
    exact .choice (respects _) (firstIh regular.1 lates names handles)
      (secondIh regular.2 lates names handles)
  | many body ih =>
    exact .many (respects _) (Fuelled.below_loop _) (ih regular lates names handles)
  | many1 body ih =>
    have bodies := ih regular lates names handles
    exact .adapt (respects _) _
      (.sequence (respects _) bodies (.many (respects _) (Fuelled.below_loop _) bodies))
  | replicate count body capacity ih =>
    exact .replicate (respects _) capacity count (ih regular lates names handles)
  | dependent determinant parts next extract determinantIh partsIh =>
    refine .dependent (respects _) (determinantIh regular.1 lates names handles) (fun value => ?_) extract
    exact Grammar.behaviour_related (respects _)
      (Interpretation.withParts_related (fun _ _ => rfl) (Fuelled.below_loop _)
        (fun _ {_ _} same => same) fun part => partsIh part (regular.2.1 part) lates names handles)
      _
  | withDefault default body ih =>
    exact .withDefault (respects _) default (ih regular lates names handles)
  | opt body ih => exact .opt (respects _) (ih regular lates names handles)
  | traced name body ih => exact ih regular lates names handles
  | deferred failures message body ih =>
    refine Meaning.Below.deeper ?_
    cases limit with
    | zero => exact Meaning.below_zero _ _
    | succ limit =>
      exact ih regular.2 (fun name member => (lates name member).mono (Nat.le_succ _)) lates
        fun name member => (handles name member).mono (Nat.le_succ _)
  | recursive exposure name body ih =>
    refine Meaning.below_solve (fun first second same _ => ?_) ()
    refine Meaning.Below.mono (Meaning.Below.deeper ?_) (Nat.le_succ _)
    exact ih regular.2.2 lates names fun other member => update_related (same ()) fun outer =>
      handles other ((List.mem_cons.mp member).resolve_left outer)
  | named name => exact names name regular
  | self name => exact handles name regular

/-- The meaning of a definition depends only on the names that it may use when it is built. -/
theorem meaning_eager {definition : Definition} (regular : definition.Regular known eager bound)
    (same : ∀ name ∈ eager, eagers name = eagers' name) :
    definition.meaning late eagers scope = definition.meaning late eagers' scope := by
  refine Meaning.eq_of_below fun limit => ?_
  refine Meaning.Below.mono (meaning_below regular (fun _ _ => .refl _ _) (fun name member => ?_)
    fun _ _ => .refl _ _) (Nat.le_succ limit)
  rw [same name member]
  exact .refl _ _

/-- A recursive definition means its body, seen from its cell, where the handle means the definition. -/
theorem meaning_recursive {exposure : Exposure} {name : Text} {body : Definition}
    (regular : body.Regular known eager (name :: bound)) :
    (recursive exposure name body).meaning late eagers scope =
      (body.meaning late eagers (Function.update scope name
        ((recursive exposure name body).meaning late eagers scope))).deeper := by
  refine congrFun (Meaning.solve_eq fun {limit first second} same _ => ?_) ()
  refine Meaning.Below.deeper ?_
  cases limit with
  | zero => exact Meaning.below_zero _ _
  | succ limit =>
    exact meaning_below regular (fun _ _ => .refl _ _) (fun _ _ => .refl _ _) fun other _ =>
      update_related (same ()) fun _ => .refl _ _

end Definition

end TwoWayGrammar
