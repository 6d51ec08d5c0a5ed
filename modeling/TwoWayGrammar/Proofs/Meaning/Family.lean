import TwoWayGrammar.Proofs.Meaning.Delivery
import TwoWayGrammar.Session.Report

namespace TwoWayGrammar

/-- A family lists names with their definitions, in the order in which they are defined. -/
abbrev Family : Type := List (Text × Definition)

namespace Family

/-- The names of a family, in their order. -/
def names (family : Family) : List Text := family.map (·.1)

/-- Names are new, and definitions refer to earlier names when they are built and to any known ones when
their deferred parts are. -/
def RegularAfter (known : List Text) : Family → (earlier : List Text) → Prop
  | [], _ => True
  | (name, definition) :: others, earlier =>
    name ∉ earlier ∧ definition.Regular known earlier [] ∧
      RegularAfter known others (name :: earlier)

/-- A regular family builds in its order, each time in the same way. -/
def Regular (family : Family) : Prop := family.RegularAfter family.names []

/-- What names mean after the definitions, given what earlier names mean and what all names finally mean. -/
def meanings (late : Text → Meaning) : Family → (eagers : Text → Meaning) → Text → Meaning
  | [], eagers => eagers
  | (name, definition) :: others, eagers =>
    meanings late others
      (Function.update eagers name (definition.meaning late eagers fun _ => .bottom))

/-- What each name of a family finally means. -/
def meaning (family : Family) : Text → Meaning :=
  Meaning.solve fun late => family.meanings late fun _ => .bottom

/-- The naming of a family. -/
def naming (family : Family) : Naming := ⟨family.names, family.meaning⟩

/-- The store in which a family is defined, each name by a step of a session. -/
def store (family : Family) (sink : Sink) : Store :=
  family.foldl (fun store entry => (Session.report store (.define entry.1 entry.2)).2) (.new sink)

variable {known earlier : List Text} {family : Family} {late others eagers furthers : Text → Meaning}

/-- Names that are defined later leave earlier ones as they are. -/
theorem meanings_of_earlier (regular : family.RegularAfter known earlier) {name : Text}
    (member : name ∈ earlier) : family.meanings late eagers name = eagers name := by
  induction family generalizing earlier eagers with
  | nil => rfl
  | cons entry entries ih =>
    obtain ⟨other, definition⟩ := entry
    obtain ⟨fresh, _, rest⟩ := regular
    have different : name ≠ other := fun same => fresh (same ▸ member)
    rw [meanings, ih rest (List.mem_cons_of_mem _ member), Function.update_of_ne different]

/-- Each name means its definition. -/
theorem meanings_of_member (regular : family.RegularAfter known earlier) {name : Text}
    {definition : Definition} (member : (name, definition) ∈ family) :
    family.meanings late eagers name =
      definition.meaning late (family.meanings late eagers) fun _ => .bottom := by
  induction family generalizing earlier eagers with
  | nil => simp at member
  | cons entry entries ih =>
    obtain ⟨other, first⟩ := entry
    obtain ⟨fresh, here, rest⟩ := regular
    rcases List.mem_cons.mp member with same | later
    · obtain ⟨rfl, rfl⟩ := Prod.mk.inj same
      rw [meanings, meanings_of_earlier rest List.mem_cons_self, Function.update_self]
      refine Definition.meaning_eager here fun prior before => ?_
      have different : prior ≠ name := fun same => fresh (same ▸ before)
      rw [meanings_of_earlier rest (List.mem_cons_of_mem _ before),
        Function.update_of_ne different]
    · exact ih rest later

/-- The equations of a regular family spend fuel wherever a name is used before it is defined. -/
theorem meanings_below (regular : family.RegularAfter known earlier) {limit : Nat}
    (lates : ∀ name, Meaning.Below limit (late name) (others name))
    (names : ∀ name, Meaning.Below (limit + 1) (eagers name) (furthers name)) (name : Text) :
    Meaning.Below (limit + 1) (family.meanings late eagers name)
      (family.meanings others furthers name) := by
  induction family generalizing earlier eagers furthers with
  | nil => exact names name
  | cons entry entries ih =>
    obtain ⟨other, definition⟩ := entry
    obtain ⟨_, here, rest⟩ := regular
    exact ih rest fun name => Definition.update_related
      (Definition.meaning_below here (fun name _ => lates name) (fun name _ => names name)
        fun _ member => absurd member List.not_mem_nil)
      fun _ => names name

/-- The final meanings solve the equations of a regular family. -/
theorem meaning_eq (regular : family.Regular) :
    family.meaning = family.meanings family.meaning fun _ => .bottom :=
  Meaning.solve_eq fun lates => meanings_below regular lates fun _ => .refl _ _

/-- Each name of a regular family finally means its definition. -/
theorem meaning_of_member (regular : family.Regular) {name : Text} {definition : Definition}
    (member : (name, definition) ∈ family) :
    family.meaning name =
      definition.meaning family.meaning family.meaning fun _ => .bottom := by
  have unfolded : family.meanings family.meaning (fun _ => .bottom) name =
      definition.meaning family.meaning (family.meanings family.meaning fun _ => .bottom)
        fun _ => .bottom :=
    meanings_of_member regular member
  rwa [← meaning_eq regular] at unfolded

end Family

/-- A step that defines a new name gives it its meaning and leaves all others. -/
theorem Naming.Fulfils.report_define {naming : Naming} {eager : List Text} {eagers : Text → Meaning}
    {cells : Address → Meaning} {store : Store} (fulfils : naming.Fulfils ∅ eager eagers cells store)
    (covered : ∀ name ∈ eager, name ∈ naming.known) {name : Text} (fresh : name ∉ eager)
    {definition : Definition} (regular : definition.Regular naming.known eager []) :
    ∃ others, naming.Fulfils ∅ (name :: eager)
      (Function.update eagers name (definition.meaning naming.late eagers fun _ => .bottom)) others
      (Session.report store (.define name definition)).2 := by
  let place : Place := ⟨naming, eager, eagers, [], fun _ => .bottom⟩
  have opened : naming.Fulfils ∅ eager eagers cells (Session.handOver store) :=
    fulfils.of_eq rfl rfl fulfils.quiet
  have fits : place.Fits cells (Session.handOver store) :=
    ⟨covered, fun _ member => absurd member List.not_mem_nil, rfl, opened.names⟩
  have placed : definition.RegularAt place := regular
  obtain ⟨built, after, others, ran, grows, denotes⟩ :=
    (Definition.build_builds placed).grows fits ∅
  have defined := (opened.grows covered grows).define fresh denotes
  refine ⟨others, ?_⟩
  have stepped : (Step.define name definition).run Session.fuel ∅ (Session.handOver store) =
      (.returned .done, after.define name built) := Run.bind_of_returned ran
  rw [Session.report, stepped]
  change naming.Fulfils ∅ _ _ others ((after.define name built).collect ∅)
  rw [defined.collect]
  exact defined

namespace Family

/-- The definitions of a family give their names their meanings, one after the other. -/
theorem fulfils_after {family : Family} {naming : Naming} {earlier : List Text}
    {eagers : Text → Meaning} {cells : Address → Meaning} {store : Store}
    (regular : family.RegularAfter naming.known earlier)
    (listed : ∀ name ∈ family.names, name ∈ naming.known)
    (covered : ∀ name ∈ earlier, name ∈ naming.known)
    (fulfils : naming.Fulfils ∅ earlier eagers cells store) :
    ∃ others, naming.Fulfils ∅ (family.names.reverse ++ earlier) (family.meanings naming.late eagers)
      others (family.foldl
        (fun store entry => (Session.report store (.define entry.1 entry.2)).2) store) := by
  induction family generalizing earlier eagers cells store with
  | nil => exact ⟨cells, fulfils⟩
  | cons entry entries ih =>
    obtain ⟨name, definition⟩ := entry
    obtain ⟨fresh, here, rest⟩ := regular
    obtain ⟨others, defined⟩ := fulfils.report_define covered fresh here
    have later : ∀ other ∈ name :: earlier, other ∈ naming.known := fun other member =>
      (List.mem_cons.mp member).elim (fun same => same ▸ listed name List.mem_cons_self)
        (covered other)
    obtain ⟨last, done⟩ := ih rest (fun other member => listed other (List.mem_cons_of_mem _ member))
      later defined
    refine ⟨last, ?_⟩
    rw [names, List.map_cons, List.reverse_cons, List.append_assoc]
    exact done

/-- A regular family is defined in a store that fulfils all its meanings. -/
theorem store_fulfils {family : Family} (regular : family.Regular) {sink : Sink}
    (quiet : sink.refuses = false) :
    ∃ cells, family.naming.FulfilsAll cells (family.store sink) := by
  have empty : family.naming.Fulfils ∅ [] (fun _ => .bottom) (fun _ => .bottom) (.new sink) :=
    ⟨fun _ _ found => by simp [Store.new] at found, fun _ member => absurd member List.not_mem_nil,
      fun _ inside => absurd inside (Nat.not_lt_zero _), quiet⟩
  have inOrder : family.RegularAfter family.naming.known [] := regular
  obtain ⟨cells, fulfils⟩ := fulfils_after inOrder (fun _ member => member)
    (fun _ member => absurd member List.not_mem_nil) empty
  refine ⟨cells, ?_⟩
  have listed : family.naming.Fulfils ∅ family.names
      (family.meanings family.meaning fun _ => .bottom) cells (family.store sink) :=
    fulfils.of_same_names fun name => by simp
  rwa [← meaning_eq regular] at listed

end Family

end TwoWayGrammar
