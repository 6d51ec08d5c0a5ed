import TwoWayGrammar.Proofs.Grammar.Finding
import TwoWayGrammar.Proofs.Grammar.Parentheses
import TwoWayGrammar.Proofs.Grammar.Remainder
import TwoWayGrammar.Proofs.Run.Ending

namespace TwoWayGrammar

namespace Primitive

/-- A primitive takes something when it reads an atom, or a word that is not empty. -/
def Takes : Primitive → Prop
  | keyword word => word ≠ []
  | eof => False
  | _ => True

theorem Takes.lt_length {base : Primitive} (takes : base.Takes) {value : Value} {rest text : Input}
    (written : base.write? value rest = some text) : rest.length < text.length := by
  unfold write? at written
  split at written
  · obtain rfl := Option.some.inj written
    exact Nat.lt_succ_self _
  · obtain rfl := Option.some.inj written
    exact Nat.lt_succ_self _
  · obtain rfl := Option.some.inj written
    exact Nat.lt_succ_self _
  · obtain rfl := Option.some.inj written
    rw [List.length_append]
    exact Nat.lt_add_of_pos_left (List.length_pos_iff.mpr takes)
  · exact takes.elim
  · simp at written

end Primitive

namespace Grammar

/-- Frugal reading one level deeper. -/
def frugalNested : Nat → Grammar → Input → Run (Match Value)
  | 0 => fun _ _ => Run.diverge
  | fuel + 1 => readWith 0 (frugalNested fuel)

/-- Frugal reading has no patience with loops. A loop that needs more than one attempt more than its
input has atoms never ends. -/
def readFrugal (fuel : Nat) : Grammar → Input → Run (Match Value) := readWith 0 (frugalNested fuel)

variable {held wider known ready unlocked : AddressSet} {store now middle : Store} {fuel : Nat}
  {first second body : Grammar} {cell : Address} {input : Input}

theorem frugalNested_approximates (fuel : Nat) (grammar : Grammar) (input : Input) :
    Run.Approximates _ (grammar.frugalNested fuel input) (grammar.readNested fuel input) := by
  induction fuel generalizing grammar input with
  | zero => exact .refl _
  | succ fuel ih =>
    rw [readNested, read_eq]
    exact readWith_compatible Run.approximates_compatible (Nat.zero_le _) ih grammar input

/-- What frugal reading ends with is what reading ends with. -/
theorem readFrugal_approximates (fuel : Nat) (grammar : Grammar) (input : Input) :
    Run.Approximates _ (grammar.readFrugal fuel input) (grammar.read fuel input) := by
  rw [readFrugal, read_eq]
  exact readWith_compatible Run.approximates_compatible (Nat.zero_le _)
    (frugalNested_approximates fuel) grammar input

theorem frugalNested_evolves (held : AddressSet) (fuel : Nat) (grammar : Grammar) (input : Input) :
    Run.Evolves held (grammar.frugalNested fuel input) := by
  induction fuel generalizing grammar input with
  | zero => exact fun _ _ store => .refl held store
  | succ fuel ih => exact readWith_evolves ih 0 grammar input

theorem readFrugal_evolves (held : AddressSet) (fuel : Nat) (grammar : Grammar) (input : Input) :
    Run.Evolves held (grammar.readFrugal fuel input) :=
  readWith_evolves (frugalNested_evolves held fuel) 0 grammar input

/-- What a grammar reads after the first one may use the cells that are ready, and all known cells
when the first one consumes. -/
def Unlocks (held : AddressSet) (store : Store) (first : Grammar) (known ready unlocked : AddressSet) :
    Prop :=
  unlocked = ready ∨ (unlocked = known ∧ Consumes held store first)

/-- A grammar is guarded when every loop consumes and every handle is ready. The cells that the grammar
stands in are known, and they become ready behind a part that consumes. -/
inductive Guarded (held : AddressSet) : AddressSet → AddressSet → Store → Grammar → Prop
  | primitive {known ready : AddressSet} {store : Store} (base : Primitive) :
      Guarded held known ready store (primitive base)
  | adapt {known ready : AddressSet} {store : Store} {prism : ValuePrism} {body : Grammar}
      (guarded : Guarded held known ready store body) :
      Guarded held known ready store (adapt prism body)
  | sequence {known ready unlocked : AddressSet} {store : Store} {first second : Grammar}
      (guardedFirst : Guarded held known ready store first)
      (unlocks : Unlocks held store first known ready unlocked)
      (guardedSecond : Guarded held known unlocked store second) :
      Guarded held known ready store (sequence first second)
  | thenDiscard {known ready unlocked : AddressSet} {store : Store} {body mark : Grammar}
      (guardedBody : Guarded held known ready store body)
      (unlocks : Unlocks held store body known ready unlocked)
      (guardedMark : Guarded held known unlocked store mark) :
      Guarded held known ready store (thenDiscard body mark)
  | discardThen {known ready unlocked : AddressSet} {store : Store} {mark body : Grammar}
      (guardedMark : Guarded held known ready store mark)
      (unlocks : Unlocks held store mark known ready unlocked)
      (guardedBody : Guarded held known unlocked store body) :
      Guarded held known ready store (discardThen mark body)
  | choice {known ready : AddressSet} {store : Store} {first second : Grammar}
      (guardedFirst : Guarded held known ready store first)
      (guardedSecond : Guarded held known ready store second) :
      Guarded held known ready store (choice first second)
  | many {known ready : AddressSet} {store : Store} {body : Grammar}
      (guarded : Guarded held known ready store body) (consumes : Consumes held store body) :
      Guarded held known ready store (many body)
  | replicate {known ready : AddressSet} {store : Store} {body : Grammar} (capacity : Capacity)
      (count : Nat)      (guarded : Guarded held known ready store body) :
      Guarded held known ready store (replicate capacity count body)
  | dependent {known ready unlocked : AddressSet} {store : Store} {determinant : Grammar}
      {next : Value → Grammar} {extract : Value → Value} {captured : AddressSet}
      (guardedDeterminant : Guarded held known ready store determinant)
      (unlocks : Unlocks held store determinant known ready unlocked)
      (guardedNext : Yields held store determinant fun value =>
        Guarded held known unlocked store (next value)) :
      Guarded held known ready store (dependent determinant next extract captured)
  | withDefault {known ready : AddressSet} {store : Store} {default : Value} {body : Grammar}
      (guarded : Guarded held known ready store body) :
      Guarded held known ready store (withDefault default body)
  | opt {known ready : AddressSet} {store : Store} {body : Grammar}
      (guarded : Guarded held known ready store body) : Guarded held known ready store (opt body)
  | traced {known ready : AddressSet} {store : Store} {name : Text} {body : Grammar}
      (guarded : Guarded held known ready store body) :
      Guarded held known ready store (traced name body)
  | shared {known ready : AddressSet} {store : Store} {cell : Address}
      (guarded : store.FromNowOn held fun wider now => ∀ body after,
        Run.resolve cell wider now = (.returned body, after) →
          Guarded held (known ∪ {cell}) ready after body) :
      Guarded held known ready store (shared cell)
  | handle {known ready : AddressSet} {store : Store} {cell : Address} (member : cell ∈ ready) :
      Guarded held known ready store (handle cell)

/-- From now on frugal reading of the input ends. -/
def EndsOn (held : AddressSet) (store : Store) (grammar : Grammar) (input : Input) : Prop :=
  store.FromNowOn held fun wider now => Run.Ends (fun fuel => grammar.readFrugal fuel input) wider now

/-- Frugal reading ends on all inputs that are shorter than the bound. -/
def EndsBelow (held : AddressSet) (store : Store) (bound : Nat) (grammar : Grammar) : Prop :=
  ∀ input : Input, input.length < bound → EndsOn held store grammar input

theorem EndsBelow.mono {bound less : Nat} (ends : EndsBelow held store bound body)
    (fewer : less ≤ bound) : EndsBelow held store less body := fun input short =>
  ends input (Nat.lt_of_lt_of_le short fewer)

theorem EndsBelow.later {bound : Nat} (ends : EndsBelow held store bound body)
    (reached : Store.Later held store now) : EndsBelow held now bound body := fun input short =>
  (ends input short).later reached

/-- A success of frugal reading is a success of reading. -/
theorem read_of_settles {found : Match Value}
    (settles : Run.Settles (fun fuel => body.readFrugal fuel input) wider now (.returned found) middle) :
    ∃ fuel, body.read fuel input wider now = (.returned found, middle) := by
  obtain ⟨enough, ran⟩ := settles
  exact ⟨enough, (readFrugal_approximates enough body input).eq_of_returned (ran enough (Nat.le_refl _))⟩

/-- Reading leads to a later store and leaves no more than it was given. -/
theorem later_of_settles {found : Match Value} (within : held ⊆ wider)
    (settles : Run.Settles (fun fuel => body.readFrugal fuel input) wider now (.returned found) middle) :
    Store.Later held now middle ∧ found.rest.length ≤ input.length := by
  obtain ⟨fuel, returned⟩ := read_of_settles settles
  exact ⟨(read_evolves held fuel body input).later within returned,
    (read_leaves fuel body input wider now found middle returned).length_le⟩

/-- A family of handles ends below the bound. -/
def HandlesEnd (held : AddressSet) (store : Store) (bound : Nat) (cells : AddressSet) : Prop :=
  ∀ cell ∈ cells, EndsBelow held store bound (handle cell)

theorem HandlesEnd.mono {bound less : Nat} (ends : HandlesEnd held store bound known)
    (fewer : less ≤ bound) : HandlesEnd held store less known := fun cell member =>
  (ends cell member).mono fewer

theorem HandlesEnd.later {bound : Nat} (ends : HandlesEnd held store bound known)
    (reached : Store.Later held store now) : HandlesEnd held now bound known := fun cell member =>
  (ends cell member).later reached

/-- A part that follows another one ends on what that one leaves. If the first part consumes, the known
handles end on all that can be left. -/
theorem ends_next {length : Nat} {rest : Input} {value : Value}
    (unlocks : Unlocks held store first known ready unlocked)
    (ends : ∀ length, HandlesEnd held store (length + 1) unlocked →
      HandlesEnd held store length known → EndsBelow held store (length + 1) second)
    (readyEnd : HandlesEnd held store (length + 1) ready) (knownEnd : HandlesEnd held store length known)
    (short : input.length < length + 1) (reached : Store.Later held store now) (within : held ⊆ wider)
    (settles : Run.Settles (fun fuel => first.readFrugal fuel input) wider now
      (.returned (.success value rest)) middle) :
    Run.Ends (fun fuel => second.readFrugal fuel rest) wider middle := by
  obtain ⟨step, less⟩ := later_of_settles within settles
  change rest.length ≤ input.length at less
  rcases unlocks with rfl | ⟨rfl, consumes⟩
  · exact ends length readyEnd knownEnd rest (by omega) (reached.trans step) within
  · obtain ⟨fuel, returned⟩ := read_of_settles settles
    have shorter := consumes reached within returned
    obtain ⟨before, rfl⟩ : ∃ before, length = before + 1 := ⟨length - 1, by omega⟩
    exact ends before knownEnd (knownEnd.mono (Nat.le_succ before)) rest (by omega)
      (reached.trans step) within

/-- A loop whose body consumes ends within one attempt more than the input has atoms. -/
theorem ends_readMany {length : Nat} (ends : EndsBelow held store (length + 1) body)
    (consumes : Consumes held store body) {attempts : Nat} (enough : input.length < attempts)
    (short : input.length < length + 1) (reached : Store.Later held store now)
    (within : held ⊆ wider) :
    Run.Ends (fun fuel => Run.readMany (body.readFrugal fuel) attempts input) wider now := by
  induction attempts generalizing input now with
  | zero => omega
  | succ attempts ih =>
    refine (ends input short reached within).bind fun outcome middle settles => ?_
    cases outcome with
    | success value rest =>
      obtain ⟨step, _⟩ := later_of_settles within settles
      obtain ⟨fuel, returned⟩ := read_of_settles settles
      have shorter := consumes reached within returned
      exact (ih (by omega) (by omega) (reached.trans step)).bind fun _ _ _ => Run.ends_pure _
    | failure rest => exact Run.ends_pure _

theorem ends_readTimes {length : Nat} (ends : EndsBelow held store (length + 1) body) (times : Nat)
    (short : input.length < length + 1) (reached : Store.Later held store now)
    (within : held ⊆ wider) :
    Run.Ends (fun fuel => Run.readTimes (body.readFrugal fuel) times input) wider now := by
  induction times generalizing input now with
  | zero => exact Run.ends_pure _
  | succ times ih =>
    refine (ends input short reached within).onSuccess fun value rest middle settles => ?_
    obtain ⟨step, less⟩ := later_of_settles within settles
    change rest.length ≤ input.length at less
    exact (ih (by omega) (reached.trans step)).onSuccess fun _ _ _ _ => Run.ends_pure _

/-- The second alternative is tried in the store that the failure of the first one has left. -/
theorem EndsBelow.choice {bound : Nat} (firstEnds : EndsBelow held store bound first)
    (secondEnds : EndsBelow held store bound second) :
    EndsBelow held store bound (Grammar.choice first second) := by
  intro input short now reached wider within
  refine ((firstEnds input short reached within).onSuccess fun _ _ _ _ =>
    Run.ends_pure _).onFailure fun rest middle settles => ?_
  obtain ⟨enough, ran⟩ := settles
  have step := ((readFrugal_evolves held enough _ input).onSuccess fun value rest =>
    Run.evolves_pure (.success (Value.left value) rest)).later within (ran enough (Nat.le_refl _))
  exact (secondEnds input short (reached.trans step) within).onSuccess fun _ _ _ _ => Run.ends_pure _

/-- More items than a list can hold are refused at once. -/
theorem EndsBelow.replicate {length : Nat} (ends : EndsBelow held store (length + 1) body)
    (capacity : Capacity) (count : Nat) :
    EndsBelow held store (length + 1) (Grammar.replicate capacity count body) := by
  intro input short now reached wider within
  by_cases big : capacity.items < count
  · have refused : (fun fuel => (Grammar.replicate capacity count body).readFrugal fuel input) =
        fun _ => Run.stop (.overlong count) := funext fun _ => if_pos big
    rw [refused]
    exact Run.ends_stop _
  · have loops : (fun fuel => (Grammar.replicate capacity count body).readFrugal fuel input) =
        fun fuel => Run.onSuccess (Run.readTimes (body.readFrugal fuel) count input)
          fun values rest => pure (.success (.list values) rest) := funext fun _ => if_neg big
    rw [loops]
    exact (ends_readTimes ends count short reached within).onSuccess fun _ _ _ _ => Run.ends_pure _

theorem EndsBelow.handle {bound : Nat} (ends : EndsBelow held store bound (Grammar.shared cell)) :
    EndsBelow held store bound (Grammar.handle cell) := by
  intro input short now reached wider within
  exact (ends input short reached
    (AddressSet.Subset.trans within (AddressSet.subset_union_left wider {cell}))).holding {cell}

/-- Entering a cell ends when its grammar ends, given that its handle ends on shorter inputs. -/
theorem endsBelow_shared_step {length : Nat}
    (ends : store.FromNowOn held fun wider now => ∀ body after,
      Run.resolve cell wider now = (.returned body, after) →
        HandlesEnd held after length (known ∪ {cell}) → EndsBelow held after (length + 1) body)
    (knownEnd : HandlesEnd held store length known)
    (handleEnds : EndsBelow held store length (handle cell)) :
    EndsBelow held store (length + 1) (shared cell) := by
  intro input short now reached wider within
  refine (Run.ends_resolve cell).bind fun body after settles => ?_
  obtain ⟨enough, ran⟩ := settles
  have resolved := ran enough (Nat.le_refl enough)
  have step := reached.trans ((Run.evolves_resolve cell).later within resolved)
  have bodyEnds : EndsBelow held after (length + 1) body := by
    refine ends reached within body after resolved fun other member => ?_
    rcases AddressSet.mem_union.mp member with member | member
    · exact (knownEnd other member).later step
    · obtain rfl := AddressSet.mem_singleton.mp member
      exact handleEnds.later step
  exact (bodyEnds input short (.refl held after) within).deeper fun _ => rfl

/-- A cell ends by induction on the length of the input. Its handle is entered only on shorter inputs,
and there the cell ends already. -/
theorem endsBelow_shared
    (ends : store.FromNowOn held fun wider now => ∀ body after,
      Run.resolve cell wider now = (.returned body, after) → ∀ length,
        HandlesEnd held after (length + 1) ready → HandlesEnd held after length (known ∪ {cell}) →
          EndsBelow held after (length + 1) body)
    (length : Nat) (readyEnd : HandlesEnd held store (length + 1) ready)
    (knownEnd : HandlesEnd held store length known) :
    EndsBelow held store (length + 1) (shared cell) := by
  have step (length : Nat) (readyEnd : HandlesEnd held store (length + 1) ready) :
      store.FromNowOn held fun wider now => ∀ body after,
        Run.resolve cell wider now = (.returned body, after) →
          HandlesEnd held after length (known ∪ {cell}) → EndsBelow held after (length + 1) body := by
    intro now reached wider within body after resolved
    exact ends reached within body after resolved length
      (readyEnd.later (reached.trans ((Run.evolves_resolve cell).later within resolved)))
  induction length with
  | zero =>
    exact endsBelow_shared_step (step 0 readyEnd) knownEnd fun input short =>
      absurd short (Nat.not_lt_zero _)
  | succ length ih =>
    have before := ih (readyEnd.mono (Nat.le_succ _)) (knownEnd.mono (Nat.le_succ _))
    exact endsBelow_shared_step (step _ readyEnd) knownEnd before.handle

/-- A guarded grammar ends on all inputs up to a length, given that the handles that are ready end up to
that length and the known handles end below it. -/
theorem endsBelow_of_guarded {grammar : Grammar} (guarded : Guarded held known ready store grammar)
    (length : Nat) (readyEnd : HandlesEnd held store (length + 1) ready)
    (knownEnd : HandlesEnd held store length known) :
    EndsBelow held store (length + 1) grammar := by
  induction guarded generalizing length with
  | primitive base => exact fun _ _ _ _ _ _ => Run.ends_pure _
  | @adapt _ _ _ prism _ _ ih =>
    intro input short now reached wider within
    refine (ih length readyEnd knownEnd input short reached within).onSuccess fun value _ _ _ => ?_
    cases prism.preview value with
    | none => exact Run.ends_pure _
    | some view => exact Run.ends_pure _
  | sequence _ unlocks _ firstIh secondIh =>
    intro input short now reached wider within
    refine (firstIh length readyEnd knownEnd input short reached within).onSuccess
      fun value rest middle settles => ?_
    exact (ends_next unlocks secondIh readyEnd knownEnd short reached within settles).onSuccess
      fun _ _ _ _ => Run.ends_pure _
  | thenDiscard _ unlocks _ bodyIh markIh =>
    intro input short now reached wider within
    refine (bodyIh length readyEnd knownEnd input short reached within).onSuccess
      fun value rest middle settles => ?_
    exact (ends_next unlocks markIh readyEnd knownEnd short reached within settles).onSuccess
      fun _ _ _ _ => Run.ends_pure _
  | discardThen _ unlocks _ markIh bodyIh =>
    intro input short now reached wider within
    refine (markIh length readyEnd knownEnd input short reached within).onSuccess
      fun value rest middle settles => ?_
    exact ends_next unlocks bodyIh readyEnd knownEnd short reached within settles
  | choice _ _ firstIh secondIh =>
    exact (firstIh length readyEnd knownEnd).choice (secondIh length readyEnd knownEnd)
  | many _ consumes ih =>
    intro input short now reached wider within
    exact (ends_readMany (ih length readyEnd knownEnd) consumes (Nat.lt_succ_self _) short reached
      within).bind fun _ _ _ => Run.ends_pure _
  | replicate capacity count _ ih => exact (ih length readyEnd knownEnd).replicate capacity count
  | dependent _ unlocks _ determinantIh nextIh =>
    intro input short now reached wider within
    refine (determinantIh length readyEnd knownEnd input short reached within).onSuccess
      fun value rest middle settles => ?_
    obtain ⟨fuel, returned⟩ := read_of_settles settles
    exact ends_next unlocks (nextIh reached within returned) readyEnd knownEnd short reached within
      settles
  | withDefault _ ih =>
    intro input short now reached wider within
    exact (ih length readyEnd knownEnd input short reached within).onFailure fun _ _ _ =>
      Run.ends_pure _
  | opt _ ih =>
    intro input short now reached wider within
    exact ((ih length readyEnd knownEnd input short reached within).onSuccess fun _ _ _ _ =>
      Run.ends_pure _).onFailure fun _ _ _ => Run.ends_pure _
  | traced _ ih =>
    intro input short now reached wider within
    refine Run.Ends.traced _ _ _ fun entered opened => ?_
    exact ih length readyEnd knownEnd input short (reached.trans (Store.later_of_enter opened)) within
  | shared _ ih => exact endsBelow_shared ih length readyEnd knownEnd
  | handle member => exact readyEnd _ member

/-- Reading with a guarded grammar whose runs do not stop with a fault returns a match of every input.
The same match is returned when each loop makes at most one attempt more than its input has atoms. -/
theorem read_returns_of_guarded {grammar : Grammar} (guarded : Guarded held ∅ ∅ store grammar)
    (input : Input)
    (faultless : ∀ fuel fault after, grammar.read fuel input held store ≠ (.stopped fault, after)) :
    ∃ enough found after, ∀ fuel, enough ≤ fuel →
      grammar.read fuel input held store = (.returned found, after) ∧
        grammar.readFrugal fuel input held store = (.returned found, after) := by
  have none (bound : Nat) : HandlesEnd held store bound ∅ := fun cell member =>
    absurd member (AddressSet.not_mem_empty cell)
  obtain ⟨outcome, after, ended, enough, ran⟩ :=
    endsBelow_of_guarded guarded input.length (none _) (none _) input (Nat.lt_succ_self _)
      (.refl held store) (AddressSet.Subset.refl held)
  have same (fuel : Nat) (plenty : enough ≤ fuel) :=
    (readFrugal_approximates fuel grammar input).eq_of_ends (ran fuel plenty) ended
  cases outcome with
  | returned found => exact ⟨enough, found, after, fun fuel plenty => ⟨same fuel plenty, ran fuel plenty⟩⟩
  | stopped fault => exact absurd (same enough (Nat.le_refl _)) (faultless enough fault after)
  | diverged => exact absurd rfl ended

/-- A recursive definition that is kept is guarded when its body is, with its handle known. -/
theorem guarded_recursive {built : Built} (holds : store.cells[cell]? = some (.holding built))
    (keeps : Store.Keeps held store cell)
    (guarded : ∀ now, Store.Later held store now →
      Guarded held (known ∪ {cell}) ready now built.grammar) :
    Guarded held known ready store (shared cell) := by
  refine .shared fun now reached wider within body after resolved => ?_
  rw [Run.resolve_of_holding (keeps.holding reached holds)] at resolved
  obtain ⟨rfl, rfl⟩ : built.grammar = body ∧ now = after := by simpa using resolved
  exact guarded now reached

/-- A primitive that takes something consumes. It would write back more than the rest. -/
theorem consumes_primitive (base : Primitive) (takes : base.Takes) :
    Consumes held store (primitive base) := by
  intro now reached wider within fuel input value rest after returned
  rw [read_primitive] at returned
  have found := (Run.returned_of_pure returned).1
  exact takes.lt_length (Primitive.write?_of_success base input rest value found)

theorem Consumes.adapt {prism : ValuePrism} (consumes : Consumes held store body) :
    Consumes held store (Grammar.adapt prism body) := by
  intro now reached wider within fuel input value rest after returned
  rw [read_adapt] at returned
  obtain ⟨representation, between, middle, first, returned⟩ := Run.success_of_onSuccess returned
  cases viewed : prism.preview representation with
  | none => simp [viewed] at returned
  | some view =>
    rw [viewed] at returned
    obtain ⟨rfl, rfl, rfl⟩ := Run.success_of_pure returned
    exact consumes reached within first

/-- What a part has taken off stays off behind it. -/
theorem Consumes.discardThen {mark : Grammar} (consumes : Consumes held store mark) (body : Grammar) :
    Consumes held store (Grammar.discardThen mark body) := by
  intro now reached wider within fuel input value rest after returned
  rw [read_discardThen] at returned
  obtain ⟨markValue, between, middle, first, returned⟩ := Run.success_of_onSuccess returned
  have shorter := consumes reached within first
  have suffix := read_leaves fuel body between wider middle _ after returned
  exact Nat.lt_of_le_of_lt suffix.length_le shorter

theorem Consumes.sequence (consumes : Consumes held store first) (second : Grammar) :
    Consumes held store (Grammar.sequence first second) := by
  intro now reached wider within fuel input value rest after returned
  rw [read_sequence] at returned
  obtain ⟨firstValue, between, middle, before, returned⟩ := Run.success_of_onSuccess returned
  obtain ⟨secondValue, last, close, behind, returned⟩ := Run.success_of_onSuccess returned
  obtain ⟨rfl, rfl, rfl⟩ := Run.success_of_pure returned
  have shorter := consumes reached within before
  have suffix := read_leaves fuel second between wider middle _ close behind
  exact Nat.lt_of_le_of_lt suffix.length_le shorter

/-- The handle of a finished cell consumes when its grammar does. -/
theorem consumes_handle {built : Built} (holds : store.cells[cell]? = some (.holding built))
    (keeps : Store.Keeps held store cell) (consumes : Consumes held store built.grammar) :
    Consumes held store (handle cell) := by
  intro now reached wider within fuel input value rest after returned
  rw [read_handle] at returned
  obtain ⟨middle, inner, _⟩ := Run.returned_of_holding returned
  have resolved : Run.resolve cell (wider ∪ {cell}) now = (.returned built.grammar, now) :=
    Run.resolve_of_holding (keeps.holding reached holds)
  rw [read_shared, Run.bind_of_returned resolved] at inner
  cases fuel with
  | zero => simp [readNested, Run.diverge] at inner
  | succ fuel =>
    exact consumes reached
      (AddressSet.Subset.trans within (AddressSet.subset_union_left wider {cell})) inner

/-- A run that returns with some fuel stops with no fault, whatever the fuel. -/
theorem faultless_of_returned {enough : Nat} {found : Match Value} {after : Store}
    (returned : body.read enough input held store = (.returned found, after)) (fuel : Nat)
    (fault : Fault) (last : Store) : body.read fuel input held store ≠ (.stopped fault, last) := by
  intro stopped
  have more := read_of_le (Nat.le_max_left enough fuel) returned (by simp)
  have same := read_of_le (Nat.le_max_right enough fuel) stopped (by simp)
  rw [more] at same
  simp at same

/-- Nested parentheses are guarded. A handle is entered only behind an opening parenthesis. -/
theorem guarded_parentheses : Guarded {0} ∅ ∅ parenthesesStore (shared 0) := by
  refine guarded_recursive rfl keeps_parentheses fun now reached => ?_
  have opens : Consumes {0} now (literal (.char '(')) := consumes_primitive _ trivial
  have handleConsumes : Consumes {0} now (handle 0) :=
    consumes_handle (holds_parentheses reached) (keeps_parentheses.later reached)
      (opens.discardThen _).adapt
  have known : 0 ∈ (∅ ∪ {0} : AddressSet) := by simp
  exact .adapt (.discardThen (.primitive _) (.inr ⟨rfl, opens⟩)
    (.thenDiscard (.many (.handle known) handleConsumes) (.inl rfl) (.primitive _)))

/-- Reading nested parentheses returns. -/
theorem read_returns_parentheses :
    ∃ enough found after, ∀ fuel, enough ≤ fuel →
      (shared 0).read fuel ("(())(".toList.map .char) {0} parenthesesStore =
        (.returned found, after) ∧
      (shared 0).readFrugal fuel ("(())(".toList.map .char) {0} parenthesesStore =
        (.returned found, after) :=
  read_returns_of_guarded guarded_parentheses _ (@faultless_of_returned _ _ _ _ 3 _ _ rfl)

end Grammar

end TwoWayGrammar
