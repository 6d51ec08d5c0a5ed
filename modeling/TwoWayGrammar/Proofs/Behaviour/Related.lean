import TwoWayGrammar.Proofs.Behaviour.Basic

/-! A relation that passes from the first computation and the rest to their sequence passes from the parts
of a grammar to the grammar. -/

namespace TwoWayGrammar

namespace Behaviour

variable {m n : Type → Type} [Monad m] [Faulting m] [Monad n] [Faulting n]

/-- A relation respects computations when it holds between equal results and equal faults, and passes
from parts to their sequence. -/
structure Respects (related : (α : Type) → m α → n α → Prop) : Prop where
  pure : ∀ {α : Type} (result : α), related α (pure result) (pure result)
  stop : ∀ {α : Type} (fault : Fault), related α (Faulting.stop fault) (Faulting.stop fault)
  bind : ∀ {α β : Type} {first : m α} {other : n α} {next : α → m β} {following : α → n β},
    related α first other → (∀ result, related β (next result) (following result)) →
      related β (first >>= next) (other >>= following)

/-- Two behaviours are related when both of their directions are. -/
structure Related (related : (α : Type) → m α → n α → Prop) (first : Behaviour m)
    (second : Behaviour n) : Prop where
  read : ∀ input, related _ (first.read input) (second.read input)
  write : ∀ value rest, related _ (first.write value rest) (second.write value rest)

/-- Two loops are related when they are so for all related items. -/
def Loop.Related (related : (α : Type) → m α → n α → Prop) (first : Loop m) (second : Loop n) :
    Prop :=
  ∀ {item : Input → m (Match Value)} {other : Input → n (Match Value)},
    (∀ input, related _ (item input) (other input)) →
      ∀ input, related _ (first item input) (second other input)

variable {related : (α : Type) → m α → n α → Prop} {α β : Type}

namespace Respects

theorem onSuccess (respects : Respects related) {found : m (Match α)} {other : n (Match α)}
    {next : α → Input → m (Match β)} {following : α → Input → n (Match β)}
    (first : related _ found other)
    (second : ∀ value rest, related _ (next value rest) (following value rest)) :
    related _ (onSuccess found next) (onSuccess other following) := by
  refine respects.bind first fun outcome => ?_
  cases outcome with
  | success value rest => exact second value rest
  | failure rest => exact respects.pure _

theorem onFailure (respects : Respects related) {found other : m (Match α)}
    {left right : n (Match α)} (first : related _ found left) (second : related _ other right) :
    related _ (onFailure found other) (onFailure left right) := by
  refine respects.bind first fun outcome => ?_
  cases outcome with
  | success value rest => exact respects.pure _
  | failure rest => exact second

/-- A loop is related to one that has more attempts left when the first runs out of its own. -/
theorem readMany (respects : Respects related) {item : Input → m (Match α)}
    {other : Input → n (Match α)} (items : ∀ input, related _ (item input) (other input))
    (extra : Nat) (short : ∀ input, related _ Faulting.diverge (readMany other extra input))
    (attempts : Nat) (input : Input) :
    related _ (readMany item attempts input) (readMany other (attempts + extra) input) := by
  induction attempts generalizing input with
  | zero =>
    rw [Nat.zero_add]
    exact short input
  | succ attempts ih =>
    rw [Nat.add_right_comm]
    refine respects.bind (items input) fun outcome => ?_
    cases outcome with
    | success value rest => exact respects.bind (ih rest) fun _ => respects.pure _
    | failure rest => exact respects.pure _

theorem readTimes (respects : Respects related) {item : Input → m (Match α)}
    {other : Input → n (Match α)} (items : ∀ input, related _ (item input) (other input))
    (times : Nat) (input : Input) :
    related _ (readTimes item times input) (readTimes other times input) := by
  induction times generalizing input with
  | zero => exact respects.pure _
  | succ times ih =>
    exact respects.onSuccess (items input) fun _ rest =>
      respects.onSuccess (ih rest) fun _ _ => respects.pure _

theorem writeEach (respects : Respects related) {item : α → Input → m Input}
    {other : α → Input → n Input}
    (items : ∀ value rest, related _ (item value rest) (other value rest)) (values : List α)
    (rest : Input) : related _ (writeEach item values rest) (writeEach other values rest) := by
  induction values with
  | nil => exact respects.pure _
  | cons value values ih => exact respects.bind ih fun after => items value after

theorem orStop (respects : Respects related) (result : Option α) (fault : Fault) :
    related _ (orStop result fault : m α) (orStop result fault) := by
  cases result with
  | none => exact respects.stop fault
  | some value => exact respects.pure value

end Respects

namespace Related

variable {body : Behaviour m} {other : Behaviour n} {first second : Behaviour m}
  {left right : Behaviour n}

omit [Monad m] [Monad n] in
theorem bottom (ends : ∀ {α : Type}, related α Faulting.diverge Faulting.diverge) :
    Related related .bottom .bottom :=
  ⟨fun _ => ends, fun _ _ => ends⟩

theorem primitive (respects : Respects related) (base : Primitive) :
    Related related (.primitive base) (.primitive base) :=
  ⟨fun _ => respects.pure _, fun _ _ => respects.orStop _ _⟩

theorem adapt (respects : Respects related) (prism : ValuePrism) (bodies : Related related body other) :
    Related related (.adapt prism body) (.adapt prism other) where
  read input := by
    refine respects.onSuccess (bodies.read input) fun representation rest => ?_
    cases prism.preview representation with
    | none => exact respects.pure _
    | some value => exact respects.pure _
  write _ rest := bodies.write _ rest

theorem sequence (respects : Respects related) (firsts : Related related first left)
    (seconds : Related related second right) :
    Related related (.sequence first second) (.sequence left right) where
  read input := respects.onSuccess (firsts.read input) fun _ rest =>
    respects.onSuccess (seconds.read rest) fun _ _ => respects.pure _
  write value rest := by
    cases value with
    | pair firstValue secondValue =>
      exact respects.bind (seconds.write secondValue rest) fun after => firsts.write firstValue after
    | _ => exact respects.stop _

theorem thenDiscard (respects : Respects related) (firsts : Related related first left)
    (seconds : Related related second right) :
    Related related (.thenDiscard first second) (.thenDiscard left right) where
  read input := respects.onSuccess (firsts.read input) fun _ rest =>
    respects.onSuccess (seconds.read rest) fun _ _ => respects.pure _
  write value rest := respects.bind (seconds.write _ rest) fun after => firsts.write value after

theorem discardThen (respects : Respects related) (firsts : Related related first left)
    (seconds : Related related second right) :
    Related related (.discardThen first second) (.discardThen left right) where
  read input := respects.onSuccess (firsts.read input) fun _ rest => seconds.read rest
  write value rest := respects.bind (seconds.write value rest) fun after => firsts.write _ after

theorem choice (respects : Respects related) (firsts : Related related first left)
    (seconds : Related related second right) :
    Related related (.choice first second) (.choice left right) where
  read input := respects.onFailure
    (respects.onSuccess (firsts.read input) fun _ _ => respects.pure _)
    (respects.onSuccess (seconds.read input) fun _ _ => respects.pure _)
  write value rest := by
    cases value with
    | left content => exact firsts.write content rest
    | right content => exact seconds.write content rest
    | _ => exact respects.stop _

theorem many (respects : Respects related) {loop : Loop m} {circle : Loop n}
    (loops : Loop.Related related loop circle) (bodies : Related related body other) :
    Related related (.many loop body) (.many circle other) where
  read input := respects.bind (loops bodies.read input) fun _ => respects.pure _
  write value rest := by
    cases value with
    | list values => exact respects.writeEach bodies.write values rest
    | _ => exact respects.stop _

theorem replicate (respects : Respects related) (capacity : Capacity) (count : Nat)
    (bodies : Related related body other) :
    Related related (.replicate capacity count body) (.replicate capacity count other) where
  read input := by
    unfold Behaviour.replicate
    dsimp only
    split
    · exact respects.stop _
    · exact respects.onSuccess (respects.readTimes bodies.read count input) fun _ _ =>
        respects.pure _
  write value rest := by
    cases value with
    | list values => exact respects.writeEach bodies.write _ rest
    | _ => exact respects.stop _

theorem dependent (respects : Respects related) {next : Value → Behaviour m}
    {following : Value → Behaviour n} (determinants : Related related body other)
    (nexts : ∀ value, Related related (next value) (following value)) (extract : Value → Value) :
    Related related (.dependent body next extract) (.dependent other following extract) where
  read input := respects.onSuccess (determinants.read input) fun value rest =>
    (nexts value).read rest
  write value rest := respects.bind ((nexts _).write value rest) fun after =>
    determinants.write _ after

theorem withDefault (respects : Respects related) (default : Value)
    (bodies : Related related body other) :
    Related related (.withDefault default body) (.withDefault default other) where
  read input := respects.onFailure (bodies.read input) (respects.pure _)
  write value rest := by
    unfold Behaviour.withDefault
    dsimp only
    split
    · exact respects.pure _
    · exact bodies.write value rest

theorem opt (respects : Respects related) (bodies : Related related body other) :
    Related related (.opt body) (.opt other) where
  read input := respects.onFailure
    (respects.onSuccess (bodies.read input) fun _ _ => respects.pure _) (respects.pure _)
  write value rest := by
    cases value with
    | absent => exact respects.pure _
    | present content => exact bodies.write content rest
    | _ => exact respects.stop _

end Related

end Behaviour

/-- Two interpretations are related when all that they decide is. -/
structure Interpretation.Related {m n : Type → Type} (related : (α : Type) → m α → n α → Prop)
    (first : Interpretation m) (second : Interpretation n) : Prop where
  loop : Behaviour.Loop.Related related first.loop second.loop
  traced : ∀ (name : Text) {body : Behaviour m} {other : Behaviour n},
    body.Related related other → (first.traced name body).Related related (second.traced name other)
  shared : ∀ cell, (first.shared cell).Related related (second.shared cell)
  handle : ∀ cell, (first.handle cell).Related related (second.handle cell)

/-- A grammar has related behaviours under related interpretations. -/
theorem Grammar.behaviour_related {m n : Type → Type} [Monad m] [Faulting m] [Monad n] [Faulting n]
    {related : (α : Type) → m α → n α → Prop} (respects : Behaviour.Respects related)
    {first : Interpretation m} {second : Interpretation n} (same : first.Related related second)
    (grammar : Grammar) : (grammar.behaviour first).Related related (grammar.behaviour second) := by
  induction grammar with
  | primitive base => exact .primitive respects base
  | adapt prism body ih => exact .adapt respects prism ih
  | sequence first second firstIh secondIh => exact .sequence respects firstIh secondIh
  | thenDiscard body mark bodyIh markIh => exact .thenDiscard respects bodyIh markIh
  | discardThen mark body markIh bodyIh => exact .discardThen respects markIh bodyIh
  | choice first second firstIh secondIh => exact .choice respects firstIh secondIh
  | many body ih => exact .many respects same.loop ih
  | replicate capacity count body ih => exact .replicate respects capacity count ih
  | dependent determinant next extract captured determinantIh nextIh =>
    exact .dependent respects determinantIh nextIh extract
  | withDefault default body ih => exact .withDefault respects default ih
  | opt body ih => exact .opt respects ih
  | traced name body ih => exact same.traced name ih
  | shared cell => exact same.shared cell
  | handle cell => exact same.handle cell

end TwoWayGrammar
