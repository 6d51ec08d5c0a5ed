import TwoWayGrammar.Proofs.Context.Agreement
import TwoWayGrammar.Proofs.Context.Journal

namespace TwoWayGrammar

variable {alike : Store → Store → Prop} {held : AddressSet} {parts others : Address → Grammar}

/-- A journal tells a run over a log that refuses nothing. It is the journal of that run and accounts for all
that happens in it. If the run stops, it stops with the first fault that comes up, and there is no fault in it
that it does not stop with. -/
structure Journal.Tells (parts : Address → Grammar) (fuel : Nat) (held : AddressSet) {α : Type}
    (run : Run α) (journal : Journal α) : Prop where
  run_eq : journal.run = run
  accounts : ∀ store : Store, store.Quiet → Accounts parts fuel held store (journal.entries held store)
    ((run held store).1.map fun _ => ()) (run held store).2
  stopped : ∀ (store : Store) fault after, store.Quiet → run held store = (.stopped fault, after) →
    ∃ earlier last left, journal.entries held store = earlier ++ [last] ∧
      (∀ entry ∈ earlier, ∃ next, entry.EndsWith parts fuel held (.returned ()) next) ∧
        last.EndsWith parts fuel held (.stopped fault) left ∧ Unwinds left after
  escapes : ∀ (store : Store) fault left, store.Quiet → ∀ entry ∈ journal.entries held store,
    entry.EndsWith parts fuel held (.stopped fault) left → (run held store).1 = .stopped fault

theorem Journal.Keeps.tells {fuel : Nat} {α : Type} {run : Run α} {journal : Journal α}
    (keeps : Keeps parts fuel held α run journal) : Tells parts fuel held run journal where
  run_eq := keeps.run_eq
  accounts _ quiet := keeps.accounts quiet
  stopped store fault after quiet ran := by
    have accounts := keeps.accounts quiet
    rw [ran] at accounts
    exact accounts.exists_last
  escapes store fault left quiet entry member stops := by
    have ended := (keeps.accounts quiet).stopped_of_mem member stops
    cases ran : (run held store).1 with
    | returned => simp [ran, Outcome.map] at ended
    | stopped other => simpa [ran, Outcome.map] using ended
    | diverged => simp [ran, Outcome.map] at ended

/-- What a context does about the faults of its first parts, with other parts that agree with them. -/
structure FaultsPass (alike : Store → Store → Prop) (held : AddressSet)
    (parts others : Address → Grammar) (context : Grammar) : Prop where
  /-- What it returns does not depend on what a part is where it stops with a fault. -/
  agrees : Grammar.Agrees alike held (context.fill parts) (context.fill others)
  /-- When it stops in reading, it stops with the first fault of a part, and runs no part behind that. -/
  reads : ∀ fuel input, Journal.Tells parts fuel held ((context.fill parts).read fuel input)
    ((context.journal parts fuel).read input)
  /-- So it does in writing. -/
  writes : ∀ fuel value rest, Journal.Tells parts fuel held ((context.fill parts).write fuel value rest)
    ((context.journal parts fuel).write value rest)

/-- No context absorbs a fault of a part. -/
theorem faultsPass_of_agrees (likeness : Likeness alike)
    (agrees : ∀ place, Grammar.Agrees alike held (parts place) (others place)) (context : Grammar) :
    FaultsPass alike held parts others context where
  agrees := Grammar.agrees_fill likeness agrees context
  reads fuel input := ((context.journal_keeps parts fuel held).read input).tells
  writes fuel value rest := ((context.journal_keeps parts fuel held).write value rest).tells

/-- Letters, each with a digit or with what is in the first place. The letters are in the second one. -/
def remarkedLetters : Grammar :=
  .opt (.many (.sequence (.shared 1) (.choice (.satisfy (Test.inClass .digit)) (.shared 0))))

/-- The first place refers to a cell that is not there. -/
def undefinedRemark : Address → Grammar
  | 1 => .satisfy (Test.inClass .letter)
  | _ => .shared 0

/-- The first place has an exclamation mark. -/
def markedRemark : Address → Grammar
  | 1 => .satisfy (Test.inClass .letter)
  | _ => .symbol (.char '!')

/-- The same store, without a cell and over a log that refuses nothing. -/
def SameWithoutCells (store now : Store) : Prop := store = now ∧ now.Quiet ∧ now.cells = []

theorem likeness_sameWithoutCells : Likeness SameWithoutCells where
  quiet same := same.2.1
  enter {store now operation name one other} same opened reopened := by
    obtain ⟨rfl, quiet, none⟩ := same
    obtain rfl : one = other := by simpa [opened] using reopened
    have step : Store.Later ∅ store { store with log := one } := Store.later_of_enter opened
    exact ⟨rfl, step.quiet quiet, none⟩
  leave {store now operation name ok one other} same closed reclosed := by
    obtain ⟨rfl, quiet, none⟩ := same
    obtain rfl : one = other := by simpa [closed] using reclosed
    have step : Store.Later ∅ store { store with log := one } := Store.later_of_leave closed
    exact ⟨rfl, step.quiet quiet, none⟩

/-- A part that only reads and writes a primitive agrees with itself. -/
theorem agrees_primitive (base : Primitive) :
    Grammar.Agrees SameWithoutCells held (.primitive base) (.primitive base) where
  finds {store now input found after} same finds := by
    obtain ⟨rfl, quiet⟩ := same
    obtain ⟨rfl, rfl⟩ := finds.unique (Grammar.finds_primitive base input store)
    exact ⟨_, ⟨rfl, quiet⟩, finds⟩
  puts {store now value rest text after} same puts := by
    obtain ⟨rfl, quiet⟩ := same
    obtain ⟨fuel, returned⟩ := puts
    rw [Grammar.write_primitive] at returned
    obtain ⟨written, rfl⟩ := Run.returned_of_orStop returned
    exact ⟨after, ⟨rfl, quiet⟩, Grammar.puts_primitive written after⟩

/-- A reference without a cell returns nothing, so every grammar agrees with it. -/
theorem agrees_shared (cell : Address) (other : Grammar) :
    Grammar.Agrees SameWithoutCells held (.shared cell) other := by
  have stops (store : Store) (none : store.cells = []) :
      Run.resolve cell held store = (.stopped (.grammar .released), store) :=
    Run.resolve_of_error (by simp [Store.offer, none, Cell.offer])
  constructor
  · rintro store now input found after ⟨rfl, quiet, none⟩ ⟨fuel, returned⟩
    rw [Grammar.read_shared, Run.bind_of_stopped (stops store none)] at returned
    simp at returned
  · rintro store now value rest text after ⟨rfl, quiet, none⟩ ⟨fuel, returned⟩
    rw [Grammar.write_shared, Run.bind_of_stopped (stops store none)] at returned
    simp at returned

theorem agrees_remark (place : Address) :
    Grammar.Agrees SameWithoutCells held (undefinedRemark place) (markedRemark place) := by
  unfold undefinedRemark markedRemark
  split
  · exact agrees_primitive _
  · exact agrees_shared 0 _

/-- The letter without a digit stops the option and the loop in it, which could both go on without it. Where
every letter has its digit, the exclamation mark makes no difference. -/
theorem faultsPass_remarkedLetters :
    let store := Store.new .unlimited
    let input : Input := [.char 'a', .char '1', .char 'b', .char '?']
    Likeness SameWithoutCells ∧
    (∀ place, Grammar.Agrees SameWithoutCells ∅ (undefinedRemark place) (markedRemark place)) ∧
    FaultsPass SameWithoutCells ∅ undefinedRemark markedRemark remarkedLetters ∧
    (remarkedLetters.fill undefinedRemark).read 0 input ∅ store = (.stopped (.grammar .released), store) ∧
    (((remarkedLetters.journal undefinedRemark 0).read input).entries ∅ store).map (·.subRun) =
      [.read 1 input, .read 1 [.char 'b', .char '?'], .read 0 [.char '?']] ∧
    Grammar.Finds ∅ store (remarkedLetters.fill markedRemark) [.char 'a', .char '1']
      (.success (.present (.list [.pair (.char 'a') (.left (.char '1'))])) []) store := by
  have passes : FaultsPass SameWithoutCells ∅ undefinedRemark markedRemark remarkedLetters :=
    faultsPass_of_agrees likeness_sameWithoutCells agrees_remark remarkedLetters
  refine ⟨likeness_sameWithoutCells, agrees_remark, passes, rfl, rfl, ?_⟩
  have same : SameWithoutCells (Store.new .unlimited) (Store.new .unlimited) := ⟨rfl, rfl, rfl⟩
  have finds : Grammar.Finds ∅ (Store.new .unlimited) (remarkedLetters.fill undefinedRemark)
      [.char 'a', .char '1'] (.success (.present (.list [.pair (.char 'a') (.left (.char '1'))])) [])
        (Store.new .unlimited) := ⟨0, rfl⟩
  obtain ⟨last, ⟨rfl, -⟩, finds⟩ := passes.agrees.finds same finds
  exact finds

end TwoWayGrammar
