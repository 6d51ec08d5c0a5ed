import TwoWayGrammar.Proofs.Meaning.Family

namespace TwoWayGrammar

open Behaviour

/-- Two definitions are alike when they differ only in the parts that they defer. -/
inductive Definition.Alike : Definition → Definition → Prop
  | primitive (base : Primitive) : Alike (.primitive base) (.primitive base)
  | adapt (prism : ValuePrism) {body other : Definition} (bodies : Alike body other) :
    Alike (.adapt prism body) (.adapt prism other)
  | sequence {first second left right : Definition} (heads : Alike first left)
    (tails : Alike second right) : Alike (.sequence first second) (.sequence left right)
  | thenDiscard {body mark left right : Definition} (heads : Alike body left)
    (tails : Alike mark right) : Alike (.thenDiscard body mark) (.thenDiscard left right)
  | discardThen {mark body left right : Definition} (heads : Alike mark left)
    (tails : Alike body right) : Alike (.discardThen mark body) (.discardThen left right)
  | between {opening closing body left right other : Definition} (heads : Alike opening left)
    (tails : Alike closing right) (bodies : Alike body other) :
    Alike (.between opening closing body) (.between left right other)
  | choice {first second left right : Definition} (heads : Alike first left)
    (tails : Alike second right) : Alike (.choice first second) (.choice left right)
  | many {body other : Definition} (bodies : Alike body other) : Alike (.many body) (.many other)
  | many1 {body other : Definition} (bodies : Alike body other) : Alike (.many1 body) (.many1 other)
  | replicate (count : Nat) (capacity : Capacity) {body other : Definition} (bodies : Alike body other) :
    Alike (.replicate count body capacity) (.replicate count other capacity)
  | dependent {arity : Nat} {determinant other : Definition} {parts others : Fin arity → Definition}
    (determinants : Alike determinant other) (each : ∀ part, Alike (parts part) (others part))
    (next : (Fin arity → Grammar) → Value → Grammar) (extract : Value → Value) :
    Alike (.dependent determinant parts next extract) (.dependent other others next extract)
  | withDefault (default : Value) {body other : Definition} (bodies : Alike body other) :
    Alike (.withDefault default body) (.withDefault default other)
  | opt {body other : Definition} (bodies : Alike body other) : Alike (.opt body) (.opt other)
  | traced (name : Text) {body other : Definition} (bodies : Alike body other) :
    Alike (.traced name body) (.traced name other)
  | deferred (failures : Nat) (message : Text) {body other : Definition} (bodies : Alike body other) :
    Alike (.deferred failures message body) (.deferred failures message other)
  | recursive (exposure : Exposure) (name : Text) {body other : Definition}
    (bodies : Alike body other) : Alike (.recursive exposure name body) (.recursive exposure name other)
  | named (name : Text) : Alike (.named name) (.named name)
  | self (name : Text) : Alike (.self name) (.self name)
  | inlined (failures : Nat) (message : Text) {body other : Definition} (bodies : Alike body other) :
    Alike (.deferred failures message body) other
  | postponed (failures : Nat) (message : Text) {body other : Definition} (bodies : Alike body other) :
    Alike body (.deferred failures message other)

namespace Definition

theorem Alike.refl (definition : Definition) : definition.Alike definition := by
  induction definition with
  | primitive base => exact .primitive base
  | adapt prism body ih => exact .adapt prism ih
  | sequence first second firstIh secondIh => exact .sequence firstIh secondIh
  | thenDiscard body mark bodyIh markIh => exact .thenDiscard bodyIh markIh
  | discardThen mark body markIh bodyIh => exact .discardThen markIh bodyIh
  | between opening closing body openingIh closingIh bodyIh =>
    exact .between openingIh closingIh bodyIh
  | choice first second firstIh secondIh => exact .choice firstIh secondIh
  | many body ih => exact .many ih
  | many1 body ih => exact .many1 ih
  | replicate count body capacity ih => exact .replicate count capacity ih
  | dependent determinant parts next extract determinantIh partsIh =>
    exact .dependent determinantIh partsIh next extract
  | withDefault default body ih => exact .withDefault default ih
  | opt body ih => exact .opt ih
  | traced name body ih => exact .traced name ih
  | deferred failures message body ih => exact .deferred failures message ih
  | recursive exposure name body ih => exact .recursive exposure name ih
  | named name => exact .named name
  | self name => exact .self name

theorem Alike.symm {first second : Definition} (alike : first.Alike second) : second.Alike first := by
  induction alike with
  | primitive base => exact .primitive base
  | adapt prism _ ih => exact .adapt prism ih
  | sequence _ _ headsIh tailsIh => exact .sequence headsIh tailsIh
  | thenDiscard _ _ headsIh tailsIh => exact .thenDiscard headsIh tailsIh
  | discardThen _ _ headsIh tailsIh => exact .discardThen headsIh tailsIh
  | between _ _ _ headsIh tailsIh bodiesIh => exact .between headsIh tailsIh bodiesIh
  | choice _ _ headsIh tailsIh => exact .choice headsIh tailsIh
  | many _ ih => exact .many ih
  | many1 _ ih => exact .many1 ih
  | replicate count capacity _ ih => exact .replicate count capacity ih
  | dependent _ _ next extract determinantsIh eachIh =>
    exact .dependent determinantsIh eachIh next extract
  | withDefault default _ ih => exact .withDefault default ih
  | opt _ ih => exact .opt ih
  | traced name _ ih => exact .traced name ih
  | deferred failures message _ ih => exact .deferred failures message ih
  | recursive exposure name _ ih => exact .recursive exposure name ih
  | named name => exact .named name
  | self name => exact .self name
  | inlined failures message _ ih => exact .postponed failures message ih
  | postponed failures message _ ih => exact .inlined failures message ih

variable {known eager bound : List Text} {late late' eagers scope scope' : Text → Meaning}

/-- A definition settles on nothing that a definition alike does not settle on, when the same holds of the
names and handles in them. Deferred parts cost fuel on either side, and that changes nothing. -/
theorem Alike.refines {first second : Definition} (alike : first.Alike second)
    (regular : second.Regular known eager bound)
    (lates : ∀ name, Meaning.Refines (late name) (late' name))
    (names : ∀ name, Meaning.Refines (eagers name) (late' name))
    (handles : ∀ name, Meaning.Refines (scope name) (scope' name)) :
    Meaning.Refines (first.meaning late eagers scope) (second.meaning late' late' scope') := by
  have respects := Fuelled.refines_respects
  induction alike generalizing eager bound eagers scope scope' with
  | primitive base => exact .primitive respects base
  | adapt prism _ ih => exact .adapt respects prism (ih regular names handles)
  | sequence _ _ headsIh tailsIh =>
    exact .sequence respects (headsIh regular.1 names handles) (tailsIh regular.2 names handles)
  | thenDiscard _ _ headsIh tailsIh =>
    exact .thenDiscard respects (headsIh regular.1 names handles) (tailsIh regular.2 names handles)
  | discardThen _ _ headsIh tailsIh =>
    exact .discardThen respects (headsIh regular.1 names handles) (tailsIh regular.2 names handles)
  | between _ _ _ headsIh tailsIh bodiesIh =>
    exact .discardThen respects (headsIh regular.1 names handles)
      (.thenDiscard respects (bodiesIh regular.2.2 names handles) (tailsIh regular.2.1 names handles))
  | choice _ _ headsIh tailsIh =>
    exact .choice respects (headsIh regular.1 names handles) (tailsIh regular.2 names handles)
  | many _ ih => exact .many respects Fuelled.refines_loop (ih regular names handles)
  | many1 _ ih =>
    have bodies := ih regular names handles
    exact .adapt respects _ (.sequence respects bodies (.many respects Fuelled.refines_loop bodies))
  | replicate count capacity _ ih => exact .replicate respects capacity count (ih regular names handles)
  | dependent _ _ next extract determinantsIh eachIh =>
    refine .dependent respects (determinantsIh regular.1 names handles) (fun value => ?_) extract
    exact Grammar.behaviour_related respects
      (Interpretation.withParts_related (fun _ => .inl rfl) Fuelled.refines_loop
        (fun _ {_ _} same => same) fun part => eachIh part (regular.2.1 part) names handles) _
  | withDefault default _ ih => exact .withDefault respects default (ih regular names handles)
  | opt _ ih => exact .opt respects (ih regular names handles)
  | traced name _ ih => exact ih regular names handles
  | deferred failures message _ ih =>
    exact .deeper_left (.deeper_right (ih regular.2 lates handles))
  | @recursive exposure name body other _ ih =>
    let whole : Unit → Meaning := fun _ =>
      (Definition.recursive exposure name other).meaning late' late' scope'
    have unfolded : whole () =
        (other.meaning late' late' (Function.update scope' name (whole ()))).deeper :=
      meaning_recursive regular.2.2
    suffices closed : ∀ self : Unit → Meaning, (∀ index, Meaning.Refines (self index) (whole index)) →
        ∀ index, Meaning.Refines
          (body.meaning late eagers (Function.update scope name (self ()))).deeper (whole index) from
      Meaning.solve_refines closed ()
    intro self refines _
    rw [unfolded]
    exact .deeper_left (.deeper_right (ih regular.2.2 names fun other =>
      update_related (refines ()) fun _ => handles other))
  | named name => exact names name
  | self name => exact handles name
  | inlined failures message _ ih => exact .deeper_left (ih regular lates handles)
  | postponed failures message _ ih => exact .deeper_right (ih regular.2 names handles)

end Definition

namespace Family

/-- Two families are alike when they define the same names, in any order, and each name alike. -/
structure Alike (family other : Family) : Prop where
  forth : ∀ {name : Text} {definition : Definition}, (name, definition) ∈ family →
    ∃ counterpart, (name, counterpart) ∈ other ∧ definition.Alike counterpart
  back : ∀ {name : Text} {definition : Definition}, (name, definition) ∈ other →
    ∃ counterpart, (name, counterpart) ∈ family ∧ definition.Alike counterpart

theorem Alike.refl (family : Family) : family.Alike family :=
  ⟨fun member => ⟨_, member, .refl _⟩, fun member => ⟨_, member, .refl _⟩⟩

theorem Alike.symm {family other : Family} (alike : family.Alike other) : other.Alike family :=
  ⟨alike.back, alike.forth⟩

/-- Families alike have the same names. -/
theorem Alike.mem_names {family other : Family} (alike : family.Alike other) {name : Text}
    (known : name ∈ family.names) : name ∈ other.names := by
  obtain ⟨entry, member, rfl⟩ := List.mem_map.mp known
  obtain ⟨_, present, _⟩ := alike.forth member
  exact List.mem_map.mpr ⟨_, present, rfl⟩

/-- The members of a regular family are regular definitions. -/
theorem RegularAfter.of_member {family : Family} {known earlier : List Text}
    (regular : family.RegularAfter known earlier) {name : Text} {definition : Definition}
    (member : (name, definition) ∈ family) : ∃ eager, definition.Regular known eager [] := by
  induction family generalizing earlier with
  | nil => simp at member
  | cons entry entries ih =>
    obtain ⟨_, here, rest⟩ := regular
    rcases List.mem_cons.mp member with rfl | later
    · exact ⟨earlier, here⟩
    · exact ih rest later

/-- The equations of a family lead nowhere but to the meanings of a family alike. -/
theorem meanings_refine {family entries other : Family} (alike : family.Alike other)
    (regular : other.Regular) {late eagers : Text → Meaning}
    (lates : ∀ name, Meaning.Refines (late name) (other.meaning name))
    (names : ∀ name, Meaning.Refines (eagers name) (other.meaning name))
    (within : ∀ entry ∈ entries, entry ∈ family) (name : Text) :
    Meaning.Refines (entries.meanings late eagers name) (other.meaning name) := by
  induction entries generalizing eagers with
  | nil => exact names name
  | cons entry entries ih =>
    obtain ⟨defined, definition⟩ := entry
    refine ih (fun name => ?_) fun entry member => within entry (List.mem_cons_of_mem _ member)
    by_cases same : name = defined
    · subst same
      obtain ⟨counterpart, member, likeness⟩ := alike.forth (within _ List.mem_cons_self)
      obtain ⟨eager, placed⟩ := RegularAfter.of_member regular member
      rw [Function.update_self, meaning_of_member regular member]
      exact likeness.refines placed lates names fun _ => Meaning.bottom_refines _
    · rw [Function.update_of_ne same]
      exact names name

/-- The names of a family settle on nothing that they do not settle on in a family alike. -/
theorem Alike.refines {family other : Family} (alike : family.Alike other) (regular : other.Regular)
    (name : Text) : Meaning.Refines (family.meaning name) (other.meaning name) :=
  Meaning.solve_refines
    (fun _ lates => meanings_refine alike regular lates (fun _ => Meaning.bottom_refines _)
      fun _ member => member)
    name

end Family

end TwoWayGrammar
