import TwoWayGrammar.Proofs.Law.WriteAfterRead

namespace TwoWayGrammar.Grammar

/-- From now on reading the input fails. -/
def FailsOn (held : AddressSet) (store : Store) (grammar : Grammar) (input : Input) : Prop :=
  store.FromNowOn held fun wider now => ∃ rest after, Finds wider now grammar input (.failure rest) after

/-- From now on reading the text gives the value and the rest. -/
def ReadsBack (held : AddressSet) (store : Store) (grammar : Grammar) (text : Input) (value : Value)
    (rest : Input) : Prop :=
  store.FromNowOn held fun wider now => ∃ after, Finds wider now grammar text (.success value rest) after

/-- From now on whatever the grammar puts in front of the rest has the property. -/
def PutsOnly (held : AddressSet) (store : Store) (grammar : Grammar) (value : Value) (rest : Input)
    (property : Store → Input → Prop) : Prop :=
  store.FromNowOn held fun wider now => ∀ ⦃text after⦄,
    Puts wider now grammar value rest text after → property after text

/-- A grammar is faithful to a value in front of a rest. Each part is faithful in front of what is
written after it, and where reading could go on or could take an earlier alternative, it fails. -/
inductive Faithful (held : AddressSet) : Store → Grammar → Value → Input → Prop
  | element {store : Store} (atom : Atom) (rest : Input) :
      Faithful held store element (.atom atom) rest
  | satisfy {store : Store} {test : Test} {atom : Atom} (passes : test atom = true) (rest : Input) :
      Faithful held store (satisfy test) (.atom atom) rest
  | literal {store : Store} (expected : Atom) (rest : Input) :
      Faithful held store (literal expected) .unit rest
  | keyword {store : Store} (word rest : Input) : Faithful held store (keyword word) .unit rest
  | eof {store : Store} : Faithful held store eof .unit []
  | adapt {store : Store} {prism : ValuePrism} {body : Grammar} {value : Value} {rest : Input}
      (returns : prism.preview (prism.review value) = some value)
      (faithful : Faithful held store body (prism.review value) rest) :
      Faithful held store (adapt prism body) value rest
  | sequence {store : Store} {first second : Grammar} {firstValue secondValue : Value} {rest : Input}
      (faithfulSecond : Faithful held store second secondValue rest)
      (faithfulFirst : PutsOnly held store second secondValue rest fun after text =>
        Faithful held after first firstValue text) :
      Faithful held store (sequence first second) (.pair firstValue secondValue) rest
  | thenDiscard {store : Store} {body mark : Grammar} {value : Value} {rest : Input}
      (faithfulMark : Faithful held store mark .unit rest)
      (faithfulBody : PutsOnly held store mark .unit rest fun after text =>
        Faithful held after body value text) :
      Faithful held store (thenDiscard body mark) value rest
  | discardThen {store : Store} {mark body : Grammar} {value : Value} {rest : Input}
      (faithfulBody : Faithful held store body value rest)
      (faithfulMark : PutsOnly held store body value rest fun after text =>
        Faithful held after mark .unit text) :
      Faithful held store (discardThen mark body) value rest
  | choiceLeft {store : Store} {first second : Grammar} {value : Value} {rest : Input}
      (faithful : Faithful held store first value rest) :
      Faithful held store (choice first second) (.left value) rest
  | choiceRight {store : Store} {first second : Grammar} {value : Value} {rest : Input}
      (faithful : Faithful held store second value rest)
      (fails : PutsOnly held store second value rest fun after text =>
        FailsOn held after first text) :
      Faithful held store (choice first second) (.right value) rest
  | manyNil {store : Store} {body : Grammar} {rest : Input} (fails : FailsOn held store body rest) :
      Faithful held store (many body) (.list []) rest
  | manyCons {store : Store} {body : Grammar} {value : Value} {values : List Value} {rest : Input}
      (others : Faithful held store (many body) (.list values) rest)
      (faithful : PutsOnly held store (many body) (.list values) rest fun after text =>
        Faithful held after body value text) :
      Faithful held store (many body) (.list (value :: values)) rest
  | replicateZero {store : Store} {capacity : Capacity} {body : Grammar} (rest : Input) :
      Faithful held store (replicate capacity 0 body) (.list []) rest
  | replicateSucc {store : Store} {capacity : Capacity} {count : Nat} {body : Grammar} {value : Value}
      {values : List Value} {rest : Input} (fits : count < capacity.items)
      (others : Faithful held store (replicate capacity count body) (.list values) rest)
      (faithful : PutsOnly held store (replicate capacity count body) (.list values) rest fun after text =>
        Faithful held after body value text) :
      Faithful held store (replicate capacity (count + 1) body) (.list (value :: values)) rest
  | dependent {store : Store} {determinant : Grammar} {next : Value → Grammar}
      {extract : Value → Value} {captured : AddressSet} {value : Value} {rest : Input}
      (faithfulNext : Faithful held store (next (extract value)) value rest)
      (faithfulDeterminant : PutsOnly held store (next (extract value)) value rest fun after text =>
        Faithful held after determinant (extract value) text) :
      Faithful held store (dependent determinant next extract captured) value rest
  | withDefaultOther {store : Store} {default value : Value} {body : Grammar} {rest : Input}
      (different : value ≠ default) (faithful : Faithful held store body value rest) :
      Faithful held store (withDefault default body) value rest
  | withDefaultDefault {store : Store} {default : Value} {body : Grammar} {rest : Input}
      (answers : store.FromNowOn held fun wider now => ∃ found after,
        Finds wider now body rest found after ∧
          ((∃ left, found = .failure left) ∨ found = .success default rest)) :
      Faithful held store (withDefault default body) default rest
  | optPresent {store : Store} {body : Grammar} {value : Value} {rest : Input}
      (faithful : Faithful held store body value rest) :
      Faithful held store (opt body) (.present value) rest
  | optAbsent {store : Store} {body : Grammar} {rest : Input}
      (fails : FailsOn held store body rest) : Faithful held store (opt body) .absent rest
  | traced {store : Store} {name : Text} {body : Grammar} {value : Value} {rest : Input}
      (faithful : Faithful held store body value rest) :
      Faithful held store (traced name body) value rest
  | shared {store : Store} {cell : Address} {value : Value} {rest : Input}
      (resolves : store.FromNowOn held fun wider now => ∃ body after,
        Run.resolve cell wider now = (.returned body, after))
      (faithful : store.FromNowOn held fun wider now => ∀ body after,
        Run.resolve cell wider now = (.returned body, after) → Faithful held after body value rest) :
      Faithful held store (shared cell) value rest
  | handle {store : Store} {cell : Address} {value : Value} {rest : Input}
      (faithful : Faithful held store (shared cell) value rest) :
      Faithful held store (handle cell) value rest

/-- From now on the value can be written in front of the rest, and it can be read back since then. -/
def Recovers (held : AddressSet) (store : Store) (grammar : Grammar) (value : Value) (rest : Input) :
    Prop :=
  store.FromNowOn held fun wider now => ∃ text after,
    Puts wider now grammar value rest text after ∧ ReadsBack held after grammar text value rest

variable {held : AddressSet} {store : Store} {cell : Address} {value : Value} {rest : Input}
  {first second body mark determinant : Grammar}

/-- A fixed atom is faithful to itself. -/
theorem faithful_symbol (atom : Atom) (rest : Input) :
    Faithful held store (symbol atom) (.atom atom) rest :=
  .satisfy ((Test.equals_iff atom atom).mpr rfl) rest

theorem Faithful.between {opening closing : Grammar}
    (closes : Faithful held store closing .unit rest)
    (faithful : PutsOnly held store closing .unit rest fun after text =>
      Faithful held after body value text)
    (opens : PutsOnly held store (Grammar.thenDiscard body closing) value rest fun after text =>
      Faithful held after opening .unit text) :
    Faithful held store (Grammar.between opening closing body) value rest :=
  .discardThen (.thenDiscard closes faithful) opens

/-- A non-empty list is faithful when its tail is, and its head is in front of the tail. -/
theorem Faithful.many1 {values : List Value}
    (others : Faithful held store (many body) (.list values) rest)
    (faithful : PutsOnly held store (many body) (.list values) rest fun after text =>
      Faithful held after body value text) :
    Faithful held store body.many1 (.nonEmpty value values) rest :=
  .adapt rfl (.sequence others faithful)

/-- A finished cell that is kept is faithful when its grammar is. -/
theorem faithful_shared {built : Built} (holds : store.cells[cell]? = some (.holding built))
    (keeps : Store.Keeps held store cell)
    (faithful : ∀ now, Store.Later held store now → Faithful held now built.grammar value rest) :
    Faithful held store (shared cell) value rest := by
  refine .shared ?_ ?_
  · intro now reached wider within
    exact ⟨built.grammar, now, Run.resolve_of_holding (keeps.holding reached holds)⟩
  · intro now reached wider within body after resolved
    rw [Run.resolve_of_holding (keeps.holding reached holds)] at resolved
    obtain ⟨rfl, rfl⟩ : built.grammar = body ∧ now = after := by simpa using resolved
    exact faithful now reached

/-- A primitive that reads what it has written recovers it. -/
theorem recovers_primitive {base : Primitive} {text : Input}
    (written : base.write? value rest = some text) (found : base.read text = .success value rest) :
    Recovers held store (primitive base) value rest := by
  intro now reached wider within
  refine ⟨text, now, puts_primitive written now, ?_⟩
  intro last later other inside
  exact ⟨last, found ▸ finds_primitive base text last⟩

/-- A combinator of one part recovers a value when it writes and reads what its part does. -/
theorem Recovers.wrap {combined : Grammar} {view : Value}
    (recovers : Recovers held store body value rest)
    (puts : ∀ {wider now text after}, Puts wider now body value rest text after →
      Puts wider now combined view rest text after)
    (finds : ∀ {wider now text after}, Finds wider now body text (.success value rest) after →
      Finds wider now combined text (.success view rest) after) :
    Recovers held store combined view rest := by
  intro now reached wider within
  obtain ⟨text, after, putsBody, reads⟩ := recovers reached within
  refine ⟨text, after, puts putsBody, ?_⟩
  intro last later other inside
  obtain ⟨final, findsBody⟩ := reads later inside
  exact ⟨final, finds findsBody⟩

/-- A combinator of two parts writes from the last to the first and reads from the first to the last.
It recovers a value when each part recovers its own in front of what is written after it. -/
theorem Recovers.join {combined : Grammar} {view firstValue secondValue : Value}
    (quiet : store.Quiet) (recoversSecond : Recovers held store second secondValue rest)
    (recoversFirst : PutsOnly held store second secondValue rest fun after text =>
      after.Quiet → Recovers held after first firstValue text)
    (puts : ∀ {wider now between middle text after},
      Puts wider now second secondValue rest between middle →
        Puts wider middle first firstValue between text after →
          Puts wider now combined view rest text after)
    (finds : ∀ {wider now text between middle after},
      Finds wider now first text (.success firstValue between) middle →
        Finds wider middle second between (.success secondValue rest) after →
          Finds wider now combined text (.success view rest) after) :
    Recovers held store combined view rest := by
  intro now reached wider within
  obtain ⟨between, middle, putsSecond, readsSecond⟩ := recoversSecond reached within
  have calm := (reached.trans (putsSecond.later within)).quiet quiet
  obtain ⟨text, after, putsFirst, readsFirst⟩ :=
    recoversFirst reached within putsSecond calm (.refl held middle) within
  refine ⟨text, after, puts putsSecond putsFirst, ?_⟩
  intro last later other inside
  obtain ⟨close, findsFirst⟩ := readsFirst later inside
  have step : Store.Later held middle close :=
    ((putsFirst.later within).trans later).trans (findsFirst.later inside)
  obtain ⟨final, findsSecond⟩ := readsSecond step inside
  exact ⟨final, finds findsFirst findsSecond⟩

/-- A value that is written as nothing is recovered where nothing is read as the value. -/
theorem recovers_nothing {combined : Grammar}
    (puts : ∀ wider now, Puts wider now combined value rest rest now)
    (reads : ReadsBack held store combined rest value rest) : Recovers held store combined value rest := by
  intro now reached wider within
  exact ⟨rest, now, puts wider now, reads.later reached⟩

/-- A value of the second alternative is recovered where the first alternative fails. -/
theorem Recovers.choiceRight (recovers : Recovers held store second value rest)
    (fails : PutsOnly held store second value rest fun after text => FailsOn held after first text) :
    Recovers held store (choice first second) (.right value) rest := by
  intro now reached wider within
  obtain ⟨text, after, puts, reads⟩ := recovers reached within
  refine ⟨text, after, puts_choice_right puts, ?_⟩
  intro last later other inside
  -- The failed attempt at the first alternative may have changed the store.
  obtain ⟨left, close, failed⟩ := fails reached within puts later inside
  obtain ⟨final, finds⟩ := reads (later.trans (failed.later inside)) inside
  exact ⟨final, finds_choice_right failed finds⟩

/-- A traced grammar logs on both ways and recovers what its body recovers. -/
theorem Recovers.traced (name : Text) (quiet : store.Quiet)
    (recovers : Recovers held store body value rest) :
    Recovers held store (Grammar.traced name body) value rest := by
  intro now reached wider within
  have calm := reached.quiet quiet
  obtain ⟨entered, opened⟩ := now.log.enter_of_quiet calm "construct".toList name
  have step : Store.Later held now { now with log := entered } := Store.later_of_enter opened
  obtain ⟨text, after, puts, reads⟩ := recovers (reached.trans step) within
  obtain ⟨closed, left, putsTraced⟩ := puts_traced calm opened puts
  have close : Store.Later held after { after with log := closed } := Store.later_of_leave left
  refine ⟨text, _, putsTraced, ?_⟩
  intro last later other inside
  have still : last.Quiet :=
    Store.Later.quiet (((step.trans (puts.later within)).trans close).trans later) calm
  obtain ⟨reentered, reopened⟩ := last.log.enter_of_quiet still "match".toList name
  have restep : Store.Later held last { last with log := reentered } :=
    Store.later_of_enter reopened
  obtain ⟨final, finds⟩ := reads ((close.trans later).trans restep) inside
  obtain ⟨reclosed, _, findsTraced⟩ := finds_traced still reopened finds
  exact ⟨_, findsTraced⟩

/-- A cell that can always be used is never released. -/
theorem keeps_of_resolves (resolves : store.FromNowOn held fun wider now => ∃ body after,
    Run.resolve cell wider now = (.returned body, after)) : Store.Keeps held store cell := by
  intro later reached
  obtain ⟨body, after, resolved⟩ := resolves reached (AddressSet.Subset.refl held)
  exact Store.not_released_of_live (Run.live_of_resolve resolved)

/-- A cell gives the same grammar for reading as for writing. -/
theorem recovers_shared
    (resolves : store.FromNowOn held fun wider now => ∃ body after,
      Run.resolve cell wider now = (.returned body, after))
    (recovers : store.FromNowOn held fun wider now => ∀ body after,
      Run.resolve cell wider now = (.returned body, after) → Recovers held after body value rest) :
    Recovers held store (Grammar.shared cell) value rest := by
  have keeps := keeps_of_resolves resolves
  intro now reached wider within
  obtain ⟨body, middle, resolved⟩ := resolves reached within
  have kept := keeps.later reached
  have step := (Run.evolves_resolve cell).later within resolved
  obtain ⟨built, holds, rfl⟩ := Run.holds_of_resolve within kept resolved
  obtain ⟨text, after, puts, reads⟩ :=
    recovers reached within built.grammar middle resolved (.refl held middle) within
  refine ⟨text, after, puts_shared resolved puts, ?_⟩
  intro last later other inside
  have again : last.cells[cell]? = some (.holding built) :=
    (kept.later step).holding ((puts.later within).trans later) holds
  obtain ⟨final, finds⟩ := reads later inside
  exact ⟨final, finds_shared (Run.resolve_of_holding again) finds⟩

theorem Recovers.handle (recovers : Recovers held store (Grammar.shared cell) value rest) :
    Recovers held store (Grammar.handle cell) value rest := by
  intro now reached wider within
  obtain ⟨text, middle, puts, reads⟩ := recovers reached
    (AddressSet.Subset.trans within (AddressSet.subset_union_left wider {cell}))
  obtain ⟨after, putsHandle, settled⟩ := puts_handle puts
  have gap : Store.Later held middle after := Store.later_of_settled within settled
  refine ⟨text, after, putsHandle, ?_⟩
  intro last later other inside
  obtain ⟨close, finds⟩ := reads (gap.trans later)
    (AddressSet.Subset.trans inside (AddressSet.subset_union_left other {cell}))
  obtain ⟨final, findsHandle, _⟩ := finds_handle finds
  exact ⟨final, findsHandle⟩

/-- Faithful grammars recover their values, over a log that refuses nothing. -/
theorem recovers_of_faithful {grammar : Grammar} (faithful : Faithful held store grammar value rest)
    (quiet : store.Quiet) : Recovers held store grammar value rest := by
  induction faithful with
  | element atom rest => exact recovers_primitive rfl rfl
  | @satisfy store test atom passes rest =>
    have found : (Primitive.satisfy test).read (atom :: rest) = .success (.atom atom) rest := by
      simp [Primitive.read, passes]
    exact recovers_primitive rfl found
  | literal expected rest => exact recovers_primitive rfl (by simp [Primitive.read])
  | keyword word rest =>
    have front : (word ++ rest).after? word = some rest :=
      (Input.after?_eq_some_iff _ _ _).mpr rfl
    exact recovers_primitive rfl (by simp [Primitive.read, front])
  | eof => exact recovers_primitive rfl rfl
  | adapt returns _ ih => exact (ih quiet).wrap puts_adapt (finds_adapt returns)
  | sequence _ _ second first => exact (second quiet).join quiet first puts_sequence finds_sequence
  | thenDiscard _ _ mark body => exact (mark quiet).join quiet body puts_thenDiscard finds_thenDiscard
  | discardThen _ _ body mark => exact (body quiet).join quiet mark puts_discardThen finds_discardThen
  | choiceLeft _ ih => exact (ih quiet).wrap puts_choice_left finds_choice_left
  | choiceRight _ fails ih => exact (ih quiet).choiceRight fails
  | manyNil fails =>
    refine recovers_nothing (fun _ => puts_many_nil _) fun now reached wider within => ?_
    obtain ⟨left, final, failed⟩ := fails reached within
    exact ⟨final, finds_many_nil failed⟩
  | manyCons _ _ others ih => exact (others quiet).join quiet ih puts_many_cons finds_many_cons
  | replicateZero rest =>
    refine recovers_nothing (fun _ => puts_replicate_zero [] rest) fun now reached wider within => ?_
    exact ⟨now, finds_replicate_zero rest now⟩
  | replicateSucc fits _ _ others ih =>
    exact (others quiet).join quiet ih puts_replicate_succ (finds_replicate_succ fits)
  | dependent _ _ next determinant =>
    exact (next quiet).join quiet determinant puts_dependent finds_dependent
  | withDefaultOther different _ ih =>
    exact (ih quiet).wrap (puts_withDefault_other different) finds_withDefault_of_success
  | withDefaultDefault answers =>
    refine recovers_nothing (fun _ => puts_withDefault_default _) fun now reached wider within => ?_
    obtain ⟨found, final, finds, ⟨left, rfl⟩ | rfl⟩ := answers reached within
    · exact ⟨final, finds_withDefault_of_failure finds⟩
    · exact ⟨final, finds_withDefault_of_success finds⟩
  | optPresent _ ih => exact (ih quiet).wrap puts_opt_present finds_opt_present
  | optAbsent fails =>
    refine recovers_nothing (fun _ => puts_opt_absent _) fun now reached wider within => ?_
    obtain ⟨left, final, failed⟩ := fails reached within
    exact ⟨final, finds_opt_absent failed⟩
  | traced _ ih => exact (ih quiet).traced _ quiet
  | shared resolves _ ih =>
    refine recovers_shared resolves fun now reached wider within body after resolved => ?_
    have step := (Run.evolves_resolve _).later within resolved
    exact ih reached within body after resolved ((reached.trans step).quiet quiet)
  | handle _ ih => exact (ih quiet).handle

/-- A faithful grammar over a log that refuses nothing writes the value, and from then on it reads the
written input as the same value in front of the same rest. -/
theorem read_of_write_of_faithful {grammar : Grammar} (quiet : store.Quiet)
    (faithful : Faithful held store grammar value rest) :
    ∃ text after,
      (∃ enough, ∀ fuel, enough ≤ fuel →
        grammar.write fuel value rest held store = (.returned text, after)) ∧
      ∀ now, Store.Later held after now → ∃ last enough, ∀ fuel, enough ≤ fuel →
        grammar.read fuel text held now = (.returned (.success value rest), last) := by
  have within : held ⊆ held := AddressSet.Subset.refl held
  obtain ⟨text, after, puts, reads⟩ :=
    recovers_of_faithful faithful quiet (.refl held store) within
  refine ⟨text, after, puts.enough, ?_⟩
  intro now later
  obtain ⟨last, finds⟩ := reads later within
  exact ⟨last, finds.enough⟩

/-- A tree in parentheses is faithful in front of everything when its children are. -/
theorem faithful_parentheses {children : List Value}
    (each : ∀ child ∈ children, ∀ now, Store.Later {0} parenthesesStore now → ∀ rest,
      Faithful {0} now (handle 0) child rest) (now : Store)
    (reached : Store.Later {0} parenthesesStore now) (rest : Input) :
    Faithful {0} now (handle 0) (.node children) rest := by
  refine .handle (faithful_shared (holds_parentheses reached) (keeps_parentheses.later reached) ?_)
  intro next further
  refine .adapt rfl (.between (.literal _ rest) ?_ fun _ _ _ _ text _ _ => .literal _ text)
  intro last later wider within text after puts
  obtain ⟨fuel, put⟩ := puts
  rw [write_primitive] at put
  obtain ⟨same, rfl⟩ := Run.returned_of_orStop put
  obtain rfl : Atom.char ')' :: rest = text := by simpa [Primitive.write?] using same
  have reached := (reached.trans further).trans later
  clear put same later further
  induction children with
  | nil =>
    refine .manyNil fun close later wider within => ?_
    have missed : (shared 0).read 1 (.char ')' :: rest) (wider ∪ {0}) close =
        (.returned (.failure (.char ')' :: rest)), close) := by
      have resolved : Run.resolve 0 (wider ∪ {0}) close = (.returned (parentheses 0), close) :=
        Run.resolve_of_holding (holds_parentheses (reached.trans later))
      rw [read_shared, Run.bind_of_returned resolved]
      rfl
    obtain ⟨final, returned, _⟩ := Run.holding_of_returned missed
    exact ⟨_, final, 1, by rw [read_handle, returned]⟩
  | cons child children ih =>
    refine .manyCons (ih fun other member => each other (List.mem_cons_of_mem child member)) ?_
    intro close later wider within text final puts
    exact each child List.mem_cons_self final ((reached.trans later).trans (puts.later within)) text

/-- Nested parentheses are written and read back. -/
theorem read_of_write_parentheses :
    ∃ text after,
      (∃ enough, ∀ fuel, enough ≤ fuel →
        (handle 0).write fuel (.node [.node []]) [.char '!'] {0} parenthesesStore =
          (.returned text, after)) ∧
      ∀ now, Store.Later {0} after now → ∃ last enough, ∀ fuel, enough ≤ fuel →
        (handle 0).read fuel text {0} now =
          (.returned (.success (.node [.node []]) [.char '!']), last) := by
  have leaf := @faithful_parentheses [] (fun child member => by simp at member)
  have tree := @faithful_parentheses [.node []] fun child member => by
    obtain rfl := List.mem_singleton.mp member
    exact leaf
  exact read_of_write_of_faithful rfl (tree parenthesesStore (.refl _ _) [.char '!'])

end TwoWayGrammar.Grammar
