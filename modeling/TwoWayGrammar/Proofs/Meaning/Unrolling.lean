import TwoWayGrammar.Proofs.Meaning.Independence

namespace TwoWayGrammar

namespace Definition

/-- The definition with the named grammar in place of a handle. A recursive definition inside that takes
the name of the handle keeps its own. -/
def withSelf (handle name : Text) : Definition → Definition
  | primitive base => primitive base
  | adapt prism body => adapt prism (body.withSelf handle name)
  | sequence first second => sequence (first.withSelf handle name) (second.withSelf handle name)
  | thenDiscard body mark => thenDiscard (body.withSelf handle name) (mark.withSelf handle name)
  | discardThen mark body => discardThen (mark.withSelf handle name) (body.withSelf handle name)
  | between opening closing body =>
    between (opening.withSelf handle name) (closing.withSelf handle name) (body.withSelf handle name)
  | choice first second => choice (first.withSelf handle name) (second.withSelf handle name)
  | many body => many (body.withSelf handle name)
  | many1 body => many1 (body.withSelf handle name)
  | replicate count body capacity => replicate count (body.withSelf handle name) capacity
  | dependent determinant parts next extract =>
    dependent (determinant.withSelf handle name) (fun part => (parts part).withSelf handle name) next
      extract
  | withDefault default body => withDefault default (body.withSelf handle name)
  | opt body => opt (body.withSelf handle name)
  | traced label body => traced label (body.withSelf handle name)
  | deferred failures message body => deferred failures message (body.withSelf handle name)
  | recursive exposure inner body =>
    if inner = handle then recursive exposure inner body
    else recursive exposure inner (body.withSelf handle name)
  | named other => named other
  | self other => if other = handle then named name else self other

/-- A definition with a named grammar in place of a handle means what it means when the handle means the
named grammar. -/
theorem meaning_withSelf (late : Text → Meaning) (definition : Definition) (handle name : Text)
    (scope : Text → Meaning) :
    (definition.withSelf handle name).meaning late late scope =
      definition.meaning late late (Function.update scope handle (late name)) := by
  induction definition generalizing scope with
  | primitive base => rfl
  | adapt prism body ih => simp only [withSelf, meaning, ih]
  | sequence first second firstIh secondIh => simp only [withSelf, meaning, firstIh, secondIh]
  | thenDiscard body mark bodyIh markIh => simp only [withSelf, meaning, bodyIh, markIh]
  | discardThen mark body markIh bodyIh => simp only [withSelf, meaning, bodyIh, markIh]
  | between opening closing body openingIh closingIh bodyIh =>
    simp only [withSelf, meaning, openingIh, closingIh, bodyIh]
  | choice first second firstIh secondIh => simp only [withSelf, meaning, firstIh, secondIh]
  | many body ih => simp only [withSelf, meaning, ih]
  | many1 body ih => simp only [withSelf, meaning, ih]
  | replicate count body capacity ih => simp only [withSelf, meaning, ih]
  | dependent determinant parts next extract determinantIh partsIh =>
    simp only [withSelf, meaning, determinantIh, partsIh]
  | withDefault default body ih => simp only [withSelf, meaning, ih]
  | opt body ih => simp only [withSelf, meaning, ih]
  | traced label body ih => exact ih scope
  | deferred failures message body ih => simp only [withSelf, meaning, ih]
  | recursive exposure inner body ih =>
    by_cases same : inner = handle
    · subst same
      simp only [withSelf, if_true, meaning, Function.update_idem]
    · simp only [withSelf, if_neg same, meaning, ih, Function.update_comm same]
  | named other => rfl
  | self other =>
    by_cases same : other = handle
    · subst same
      simp only [withSelf, if_true, meaning, Function.update_self]
    · simp only [withSelf, if_neg same, meaning, Function.update_of_ne same]

end Definition

namespace Family

/-- A name unrolls a recursive definition when it names the definition itself, or the body of it with the
name of an unrolled definition in place of the handle. -/
inductive Unrolls (family : Family) (whole handle : Text) (body : Definition) : Text → Prop
  | itself : Unrolls family whole handle body whole
  | further {inner name : Text} (unrolled : Unrolls family whole handle body inner)
    (member : (name, body.withSelf handle inner) ∈ family) : Unrolls family whole handle body name

variable {family : Family} {whole handle : Text} {body : Definition} {exposure : Exposure}

theorem Unrolls.mem_names (defined : (whole, .recursive exposure handle body) ∈ family) {name : Text}
    (unrolled : family.Unrolls whole handle body name) : name ∈ family.names := by
  cases unrolled with
  | itself => exact List.mem_map.mpr ⟨_, defined, rfl⟩
  | further _ member => exact List.mem_map.mpr ⟨_, member, rfl⟩

/-- A recursive definition and what unrolls it refine each other. Going from one to the other, the body
of the recursive definition is entered through its cell, which costs fuel and changes nothing. -/
theorem Unrolls.refines (regular : family.Regular)
    (defined : (whole, .recursive exposure handle body) ∈ family) {name : Text}
    (unrolled : family.Unrolls whole handle body name) :
    Meaning.Refines (family.meaning whole) (family.meaning name) ∧
      Meaning.Refines (family.meaning name) (family.meaning whole) := by
  have reflexive (name : Text) : Meaning.Refines (family.meaning name) (family.meaning name) :=
    (Alike.refl family).refines regular name
  obtain ⟨eager, placed⟩ := RegularAfter.of_member regular defined
  have bodyRegular : body.Regular family.names eager [handle] := placed.2.2
  have same {first second : Text}
      (refines : Meaning.Refines (family.meaning first) (family.meaning second)) :
      Meaning.Refines
        (body.meaning family.meaning family.meaning
          (Function.update (fun _ => .bottom) handle (family.meaning first)))
        (body.meaning family.meaning family.meaning
          (Function.update (fun _ => .bottom) handle (family.meaning second))) :=
    (Definition.Alike.refl body).refines bodyRegular reflexive reflexive fun other =>
      Definition.update_related refines fun _ => Meaning.bottom_refines _
  have unfolded : family.meaning whole =
      (body.meaning family.meaning family.meaning
        (Function.update (fun _ => .bottom) handle (family.meaning whole))).deeper := by
    rw [meaning_of_member regular defined]
    exact Definition.meaning_recursive bodyRegular
  induction unrolled with
  | itself => exact ⟨reflexive whole, reflexive whole⟩
  | further _ member ih =>
    rw [meaning_of_member regular member, Definition.meaning_withSelf]
    constructor
    · rw [unfolded]
      exact (same ih.1).deeper_left
    · rw [unfolded]
      exact (same ih.2).deeper_right

/-- A recursive definition is a fixed point. A request of the definition ends with an outcome exactly when
the same request of its unrolled body does, in both directions of the grammar. -/
theorem settles_unrolled {sink : Sink} (regular : family.Regular) (quiet : sink.refuses = false)
    (defined : (whole, .recursive exposure handle body) ∈ family) {name : Text}
    (unrolled : family.Unrolls whole handle body name) (request : Request) {outcome : Outcome Answer}
    (ends : outcome ≠ .diverged) :
    ((∃ fuel, family.alone sink fuel whole request = outcome) ↔
      family.Settles sink name request outcome) ∧
    ((∃ fuel, family.alone sink fuel name request = outcome) ↔
      family.Settles sink whole request outcome) := by
  obtain ⟨forth, back⟩ := unrolled.refines regular defined
  have known := Unrolls.itself.mem_names defined
  have listed := unrolled.mem_names defined
  exact ⟨settles_iff_of_refines regular regular quiet known listed forth back request ends,
    settles_iff_of_refines regular regular quiet listed known back forth request ends⟩

/-- The body of lists of letters, where the rest is the handle of the list. -/
def letterRest : Definition :=
  .opt (.sequence (.primitive (.satisfy (Test.inClass .letter))) (.lazy (.self "rest".toList)))

/-- Lists of letters, and the same unrolled once and twice. -/
def unrolledLists : Family :=
  [("list".toList, .recursive .hidden "rest".toList letterRest),
    ("once".toList, letterRest.withSelf "rest".toList "list".toList),
    ("twice".toList, letterRest.withSelf "rest".toList "once".toList)]

theorem settles_unrolledLists :
    unrolledLists.Settles .unlimited "twice".toList (.read [.char 'a', .char '1'])
      (.returned (.read (.success (.present (.pair (.atom (.char 'a')) .absent)) [.char '1']))) := by
  have regular : unrolledLists.Regular := by
    simp [Regular, RegularAfter, unrolledLists, letterRest, names, Definition.lazy,
      Definition.withSelf, Definition.Regular]
  have defined : ("list".toList, .recursive .hidden "rest".toList letterRest) ∈ unrolledLists :=
    List.mem_cons_self
  have once : unrolledLists.Unrolls "list".toList "rest".toList letterRest "once".toList :=
    .further .itself (.tail _ (.head _))
  have twice : unrolledLists.Unrolls "list".toList "rest".toList letterRest "twice".toList :=
    .further once (.tail _ (.tail _ (.head _)))
  refine (settles_unrolled regular rfl defined twice _ (by simp)).1.mp ⟨3, ?_⟩
  rfl

end Family

end TwoWayGrammar
