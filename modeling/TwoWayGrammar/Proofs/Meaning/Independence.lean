import TwoWayGrammar.Proofs.Meaning.Deferral

namespace TwoWayGrammar

open Behaviour

namespace Request

/-- The step of a session that makes a request of a named grammar. -/
def step (request : Request) (name : Text) : Step :=
  match request with
  | read input => .read (.named name) input
  | parse input => .parse (.named name) input
  | parseAll input => .parseAll (.named name) input
  | print value => .print (.named name) value
  | write value rest => .write (.named name) value rest

/-- Complete parsing is reading, with the end of the input as a mark behind the body. -/
theorem complete_read (fuel : Nat) (grammar : Grammar) (input : Input) :
    grammar.complete.read fuel input =
      ((grammar.runs fuel).thenDiscard (.primitive .eof)).read input := by
  cases fuel <;> rfl

/-- The step answers the request by the two directions of the grammar. -/
theorem run_step (request : Request) (name : Text) (fuel : Nat) :
    (request.step name).run fuel =
      (Definition.named name).use fun grammar => request.on (grammar.runs fuel) := by
  cases request with
  | read input => rfl
  | parse input =>
    have answers (grammar : Grammar) :
        (do return Answer.parsed (← grammar.parse fuel input) : Run Answer) =
          (parse input).on (grammar.runs fuel) := by
      simp only [on, Grammar.parse, Grammar.runs, bind_assoc, pure_bind]
    exact congrArg (Definition.use _) (funext answers)
  | parseAll input =>
    have answers (grammar : Grammar) :
        (do return Answer.parsed (← grammar.parseAll fuel input) : Run Answer) =
          (parseAll input).on (grammar.runs fuel) := by
      simp only [on, Grammar.parseAll, Grammar.parse, complete_read, bind_assoc, pure_bind]
    exact congrArg (Definition.use _) (funext answers)
  | print value => rfl
  | write value rest => rfl

end Request

/-- The use of a named grammar holds what it owns and runs it after a collection. -/
theorem Definition.use_named {α : Type} {name : Text} (next : Grammar → Run α) (held : AddressSet)
    {store : Store} {built : Built} (found : store.find? name = some built) :
    (Definition.named name).use next held store =
      Run.holding built.owned (Run.settle >>= fun _ => next built.grammar) held store := by
  have looked : (Definition.named name).build [] held store = (.returned built, store) := by
    change Run.orStop (store.find? name) (.unknownName name) held store = _
    rw [found]
    rfl
  exact Run.bind_of_returned looked

namespace Naming

variable {naming : Naming} {cells : Address → Meaning} {store : Store}

/-- A step that makes a request of a known name answers as the name's meaning does, and what the store
means stays. -/
theorem FulfilsAll.answers (fulfils : naming.FulfilsAll cells store) {name : Text}
    (known : name ∈ naming.known) (request : Request) (fuel : Nat) (held : AddressSet) :
    ((request.step name).run fuel held store).1 = request.on (naming.late name) fuel ∧
      ∃ others, naming.FulfilsAll others ((request.step name).run fuel held store).2 := by
  obtain ⟨built, found, denotes⟩ := fulfils.names name known
  let program : Program Answer := request.on (built.grammar.program fuel)
  have same : program.run = request.on (built.grammar.runs fuel) :=
    request.on_related Program.is_respects (built.grammar.program_runs fuel)
  have delivers : program.Delivers naming cells store.cells.length
      (request.on (naming.late name) fuel) :=
    request.on_related (Program.delivers_respects naming cells store.cells.length fuel)
      (built.grammar.program_delivers denotes fuel)
  obtain ⟨outcome, last, kept⟩ := delivers.run fulfils (.refl _ _) (held ∪ built.owned)
  have settled : (Run.settle >>= fun _ => request.on (built.grammar.runs fuel))
      (held ∪ built.owned) store = program.run (held ∪ built.owned) store := by
    rw [Run.bind_of_returned (show Run.settle (held ∪ built.owned) store = _ from rfl),
      fulfils.collect, same]
  obtain ⟨same, collected⟩ := Run.holding_apply built.owned
    (Run.settle >>= fun _ => request.on (built.grammar.runs fuel)) held store
  rw [settled] at same collected
  rw [request.run_step, Definition.use_named _ held found]
  refine ⟨same.trans outcome, last, ?_⟩
  rcases collected with kept_eq | collected
  · rwa [kept_eq]
  · rwa [collected, kept.collect]

/-- Steps that make requests of known names are reported with what the names mean. -/
theorem FulfilsAll.reports (fulfils : naming.FulfilsAll cells store)
    {requests : List (Text × Request)} (known : ∀ request ∈ requests, request.1 ∈ naming.known) :
    (Session.reports store (requests.map fun request => request.2.step request.1)).map
        (·.outcome) =
      requests.map fun request => request.2.on (naming.late request.1) Session.fuel := by
  induction requests generalizing cells store with
  | nil => rfl
  | cons request requests ih =>
    have opened : naming.FulfilsAll cells (Session.handOver store) :=
      fulfils.of_eq rfl rfl fulfils.quiet
    obtain ⟨outcome, others, kept⟩ :=
      opened.answers (known request List.mem_cons_self) request.2 Session.fuel ∅
    have next : naming.FulfilsAll others (Session.report store (request.2.step request.1)).2 := by
      change naming.FulfilsAll others
        (((request.2.step request.1).run Session.fuel ∅ (Session.handOver store)).2.collect ∅)
      rwa [kept.collect]
    exact congrArg₂ List.cons outcome
      (ih next fun request member => known request (List.mem_cons_of_mem _ member))

end Naming

/-- The program that answers a request of a named grammar. -/
def Store.program (store : Store) (fuel : Nat) (name : Text) (request : Request) : Program Answer :=
  match store.find? name with
  | some built => request.on (built.grammar.program fuel)
  | none => .ended (.stopped (.unknownName name))

namespace Family

/-- The outcome of one request, made alone of a freshly built family. -/
def alone (family : Family) (sink : Sink) (fuel : Nat) (name : Text) (request : Request) :
    Outcome Answer :=
  ((request.step name).run fuel ∅ (family.store sink)).1

/-- A request settles on an outcome when, made alone, it ends so with any fuel that is large enough. -/
def Settles (family : Family) (sink : Sink) (name : Text) (request : Request)
    (outcome : Outcome Answer) : Prop :=
  ∃ enough, ∀ fuel, enough ≤ fuel → family.alone sink fuel name request = outcome

/-- The pool of programs that answer requests of a freshly built family. -/
def pool (family : Family) (sink : Sink) (fuel : Nat) (requests : List (Text × Request)) : Pool where
  held := ∅
  store := family.store sink
  programs := requests.map fun request => (family.store sink).program fuel request.1 request.2

variable {family other : Family} {sink : Sink}

/-- A request that is made alone is answered by the meaning of the name. -/
theorem alone_eq (regular : family.Regular) (quiet : sink.refuses = false) {name : Text}
    (known : name ∈ family.names) (request : Request) (fuel : Nat) :
    family.alone sink fuel name request = request.on (family.meaning name) fuel := by
  obtain ⟨cells, fulfils⟩ := store_fulfils regular quiet
  exact (fulfils.answers known request fuel ∅).1

/-- The programs of a family deliver what their names mean. -/
theorem pool_delivers (regular : family.Regular) (quiet : sink.refuses = false)
    {requests : List (Text × Request)} (known : ∀ request ∈ requests, request.1 ∈ family.names)
    (fuel : Nat) {outcomes : Nat → Outcome Answer}
    (alone : ∀ (index : Nat) (request : Text × Request), requests[index]? = some request →
      outcomes index = family.alone sink fuel request.1 request.2) :
    (family.pool sink fuel requests).Delivers family.naming outcomes := by
  obtain ⟨cells, fulfils⟩ := store_fulfils regular quiet
  refine ⟨cells, fulfils, fun index program member => ?_⟩
  obtain ⟨⟨name, request⟩, asked, rfl⟩ : ∃ request, requests[index]? = some request ∧
      (family.store sink).program fuel request.1 request.2 = program := by
    simpa [pool, List.getElem?_map] using member
  have listed := known _ (List.mem_of_getElem? asked)
  obtain ⟨built, found, denotes⟩ := fulfils.names name listed
  rw [alone index _ asked, alone_eq regular quiet listed, Store.program, found]
  exact request.on_related (Program.delivers_respects _ _ _ fuel)
    (built.grammar.program_delivers denotes fuel)

/-- Whatever the schedule does, a program that has ended did so as its request ends alone. -/
theorem ended_after (regular : family.Regular) (quiet : sink.refuses = false)
    {requests : List (Text × Request)} (known : ∀ request ∈ requests, request.1 ∈ family.names)
    (fuel : Nat) (schedule : List Nat) {index : Nat} {name : Text} {request : Request}
    {outcome : Outcome Answer} (asked : requests[index]? = some (name, request))
    (ended : ((family.pool sink fuel requests).after schedule).programs[index]? =
      some (.ended outcome)) :
    outcome = family.alone sink fuel name request := by
  let outcomes (index : Nat) : Outcome Answer :=
    (requests[index]?.map fun request => family.alone sink fuel request.1 request.2).getD .diverged
  have delivers : (family.pool sink fuel requests).Delivers family.naming outcomes :=
    pool_delivers regular quiet known fuel fun index request asked => by simp [outcomes, asked]
  exact ((delivers.after schedule).ended ended).trans (by simp [outcomes, asked])

/-- A request settles on what it ended with for another name, also of another family, when the one name
settles on nothing that the other does not settle on. -/
theorem settles_of_refines (regular : family.Regular) (others : other.Regular)
    (quiet : sink.refuses = false) {name counterpart : Text} (known : name ∈ family.names)
    (listed : counterpart ∈ other.names)
    (refines : Meaning.Refines (family.meaning name) (other.meaning counterpart)) {request : Request}
    {fuel : Nat} {outcome : Outcome Answer} (ends : outcome ≠ .diverged)
    (ended : family.alone sink fuel name request = outcome) :
    other.Settles sink counterpart request outcome := by
  rw [alone_eq regular quiet known] at ended
  have answers := request.on_related Fuelled.refines_respects refines fuel
  rw [ended] at answers
  obtain ⟨enough, settles⟩ := answers.resolve_left ends
  refine ⟨enough, fun more least => ?_⟩
  rw [alone_eq others quiet listed]
  exact settles more least

/-- A request that settles on an outcome ends with it. -/
theorem Settles.ended {name : Text} {request : Request} {outcome : Outcome Answer}
    (settles : family.Settles sink name request outcome) :
    ∃ fuel, family.alone sink fuel name request = outcome := by
  obtain ⟨enough, settled⟩ := settles
  exact ⟨enough, settled enough (Nat.le_refl enough)⟩

/-- Two names that settle on the same results answer each request alike. -/
theorem settles_iff_of_refines (regular : family.Regular) (others : other.Regular)
    (quiet : sink.refuses = false) {name counterpart : Text} (known : name ∈ family.names)
    (listed : counterpart ∈ other.names)
    (forth : Meaning.Refines (family.meaning name) (other.meaning counterpart))
    (back : Meaning.Refines (other.meaning counterpart) (family.meaning name)) (request : Request)
    {outcome : Outcome Answer} (ends : outcome ≠ .diverged) :
    (∃ fuel, family.alone sink fuel name request = outcome) ↔
      other.Settles sink counterpart request outcome := by
  constructor
  · rintro ⟨fuel, ended⟩
    exact settles_of_refines regular others quiet known listed forth ends ended
  · intro settles
    obtain ⟨fuel, ended⟩ := settles.ended
    exact (settles_of_refines others regular quiet listed known back ends ended).ended

/-- The runs of a family are independent of what runs before and besides them, and of what the family
defers. -/
structure Independent (family : Family) (sink : Sink) : Prop where
  /-- Whatever the schedule does, a run that has ended did so as it does alone. -/
  interleaved : ∀ {requests : List (Text × Request)},
    (∀ request ∈ requests, request.1 ∈ family.names) → ∀ (fuel : Nat) (schedule : List Nat)
      {index : Nat} {name : Text} {request : Request} {outcome : Outcome Answer},
      requests[index]? = some (name, request) →
      ((family.pool sink fuel requests).after schedule).programs[index]? = some (.ended outcome) →
      outcome = family.alone sink fuel name request
  /-- After every schedule, a run that gets enough turns ends as it does alone. -/
  completed : ∀ {requests : List (Text × Request)},
    (∀ request ∈ requests, request.1 ∈ family.names) → ∀ (fuel : Nat) (schedule : List Nat)
      {index : Nat} {name : Text} {request : Request}, requests[index]? = some (name, request) →
      ∃ turns, ((family.pool sink fuel requests).after
        (schedule ++ List.replicate turns index)).programs[index]? =
          some (.ended (family.alone sink fuel name request))
  /-- The steps of a session are reported as each of them is alone. -/
  sequential : ∀ {requests : List (Text × Request)},
    (∀ request ∈ requests, request.1 ∈ family.names) →
      (Session.reports (family.store sink)
        (requests.map fun request => request.2.step request.1)).map (·.outcome) =
      requests.map fun request => family.alone sink Session.fuel request.1 request.2
  /-- A run settles on the same outcome when other parts of the family are deferred. -/
  deferral : ∀ {other : Family}, other.Regular → family.Alike other → ∀ {name : Text},
    name ∈ family.names → ∀ (request : Request) {outcome : Outcome Answer}, outcome ≠ .diverged →
      ((∃ fuel, family.alone sink fuel name request = outcome) ↔
        other.Settles sink name request outcome)

/-- The runs of a regular family over a log that cannot refuse are independent. -/
theorem independent (regular : family.Regular) (quiet : sink.refuses = false) :
    family.Independent sink := by
  refine ⟨ended_after regular quiet, fun {requests} known fuel schedule {index name request} asked => ?_,
    fun {requests} known => ?_, fun {other} others alike {name} known request {outcome} ends => ?_⟩
  · obtain ⟨program, found⟩ : ∃ program,
        ((family.pool sink fuel requests).after schedule).programs[index]? = some program := by
      refine ⟨_, List.getElem?_eq_getElem ?_⟩
      rw [Pool.length_after, pool, List.length_map]
      exact (List.getElem?_eq_some_iff.mp asked).1
    obtain ⟨turns, outcome, ended⟩ := Pool.exists_ended found
    rw [← Pool.after_append] at ended
    refine ⟨turns, ?_⟩
    rw [← ended_after regular quiet known fuel _ asked ended]
    exact ended
  · obtain ⟨cells, fulfils⟩ := store_fulfils regular quiet
    rw [fulfils.reports known]
    exact List.map_congr_left fun request member =>
      (alone_eq regular quiet (known request member) request.2 Session.fuel).symm
  · exact settles_iff_of_refines regular others quiet known (alike.mem_names known)
      (alike.refines others name) (alike.symm.refines regular name) request ends

/-- A deferred letter, and lists of letters that defer their own rest. -/
def letterLists : Family :=
  [("letter".toList, .lazy (.traced "letter".toList (.primitive (.satisfy (Test.inClass .letter))))),
    ("list".toList, .recursive .hidden "rest".toList
      (.opt (.sequence (.named "letter".toList) (.lazy (.self "rest".toList)))))]

theorem independent_letterLists :
    letterLists.Regular ∧ Sink.unlimited.refuses = false ∧ letterLists.Independent .unlimited := by
  have regular : letterLists.Regular := by
    simp [Regular, RegularAfter, letterLists, names, Definition.lazy, Definition.Regular]
  exact ⟨regular, rfl, independent regular rfl⟩

end Family

end TwoWayGrammar
