import TwoWayGrammar.Proofs.Grammar.Clauses
import TwoWayGrammar.Proofs.Run.Mapping

namespace TwoWayGrammar

namespace Run

variable {α : Type}

/-- A writing prepends when it puts the same text, from the same store, in front of every rest. -/
def Prepends (writing : Input → Run Input) : Prop :=
  ∀ rest, writing rest = (· ++ rest) <$> writing []

theorem prepends_pure : Prepends pure := fun rest => by simp

theorem prepends_stop (fault : Fault) : Prepends fun _ => stop fault := fun rest =>
  (map_stop (· ++ rest) fault).symm

theorem prepends_diverge : Prepends fun _ => diverge := fun rest =>
  (map_diverge (· ++ rest)).symm

/-- What is written later stands in front of what was written before. -/
theorem Prepends.bind {first second : Input → Run Input} (before : Prepends first)
    (later : Prepends second) : Prepends fun rest => first rest >>= second := by
  intro rest
  calc first rest >>= second
      = ((· ++ rest) <$> first []) >>= second := by rw [before rest]
    _ = first [] >>= fun text => second (text ++ rest) := by rw [bind_map_left]
    _ = first [] >>= fun text => (· ++ rest) <$> second text := by
        refine bind_congr fun text => ?_
        rw [later (text ++ rest), later text, Functor.map_map]
        simp only [List.append_assoc]
    _ = (· ++ rest) <$> (first [] >>= second) := (map_bind _ _ _).symm

/-- A run that does not see the rest may come first. -/
theorem Prepends.after (run : Run α) {next : α → Input → Run Input}
    (prepends : ∀ result, Prepends (next result)) :
    Prepends fun rest => run >>= fun result => next result rest := by
  intro rest
  rw [map_bind]
  exact bind_congr fun result => prepends result rest

theorem Prepends.writeEach {item : α → Input → Run Input} (items : ∀ value, Prepends (item value))
    (values : List α) : Prepends (Run.writeEach item values) := by
  induction values with
  | nil => exact prepends_pure
  | cons value values ih => exact ih.bind (items value)

theorem Prepends.holding (cells : AddressSet) {writing : Input → Run Input}
    (prepends : Prepends writing) : Prepends fun rest => Run.holding cells (writing rest) := by
  intro rest
  rw [map_holding, ← prepends rest]

theorem Prepends.traced (operation name : Text) (ok : Bool) {writing : Input → Run Input}
    (prepends : Prepends writing) :
    Prepends fun rest => Run.traced operation name (fun _ => ok) (writing rest) := by
  intro rest
  rw [map_traced, ← prepends rest]

end Run

/-- A primitive writes the same part in front of every rest. -/
theorem Primitive.write?_eq_append (base : Primitive) (value : Value) (rest : Input) :
    base.write? value rest = (base.write? value []).map (· ++ rest) := by
  cases base <;> cases value <;> simp [write?]

namespace Grammar

/-- Writing prepends when it does so in the grammars of cells. -/
theorem writeWith_prepends {enter : Grammar → Value → Input → Run Input}
    (entered : ∀ body value, Run.Prepends (enter body value)) (grammar : Grammar) (value : Value) :
    Run.Prepends (grammar.writeWith enter value) := by
  induction grammar generalizing value with
  | primitive base =>
    intro rest
    simp only [writeWith]
    rw [base.write?_eq_append value rest]
    cases base.write? value [] with
    | none => exact (Run.map_stop (· ++ rest) .shape).symm
    | some text => simp [Run.orStop]
  | adapt prism body ih => exact ih (prism.review value)
  | sequence first second firstIh secondIh =>
    cases value with
    | pair firstValue secondValue => exact (secondIh secondValue).bind (firstIh firstValue)
    | _ => exact Run.prepends_stop .shape
  | thenDiscard body mark bodyIh markIh => exact (markIh .unit).bind (bodyIh value)
  | discardThen mark body markIh bodyIh => exact (bodyIh value).bind (markIh .unit)
  | choice first second firstIh secondIh =>
    cases value with
    | left content => exact firstIh content
    | right content => exact secondIh content
    | _ => exact Run.prepends_stop .shape
  | many body ih =>
    cases value with
    | list values => exact Run.Prepends.writeEach ih values
    | _ => exact Run.prepends_stop .shape
  | replicate capacity count body ih =>
    cases value with
    | list values => exact Run.Prepends.writeEach ih (values.take count)
    | _ => exact Run.prepends_stop .shape
  | dependent determinant next extract captured determinantIh nextIh =>
    exact (nextIh (extract value) value).bind (determinantIh (extract value))
  | withDefault default body ih =>
    by_cases same : value = default
    · simpa only [writeWith, if_pos same] using Run.prepends_pure
    · simpa only [writeWith, if_neg same] using ih value
  | opt body ih =>
    cases value with
    | absent => exact Run.prepends_pure
    | present content => exact ih content
    | _ => exact Run.prepends_stop .shape
  | traced name body ih => exact (ih value).traced _ name true
  | shared cell => exact .after (Run.resolve cell) fun body => entered body value
  | handle cell =>
    exact (Run.Prepends.after (Run.resolve cell) fun body => entered body value).holding {cell}

theorem write_prepends (fuel : Nat) (grammar : Grammar) (value : Value) :
    Run.Prepends (grammar.write fuel value) := by
  induction fuel generalizing grammar value with
  | zero => exact writeWith_prepends (fun _ _ => Run.prepends_diverge) grammar value
  | succ fuel ih => exact writeWith_prepends ih grammar value

/-- Writing is printing in front of the rest. From the same store, writing returns, stops with a fault or
goes on without end exactly when printing does, with the same fault and the same store afterwards, and
what it returns is the printed text followed by the rest. -/
theorem write_eq_print_append (fuel : Nat) (grammar : Grammar) (value : Value) (rest : Input)
    (held : AddressSet) (store : Store) :
    grammar.write fuel value rest held store =
      ((grammar.print fuel value held store).1.map (· ++ rest),
        (grammar.print fuel value held store).2) := by
  rw [write_prepends fuel grammar value rest, Run.map_apply]
  rfl

/-- Too long a list is cut before it is written, and the rest stays as it is. -/
example : (replicate .bytes 2 element).write 0 (.list [.char 'a', .char 'b', .char 'c']) [.char 'x'] ∅
      (Store.new .unlimited) =
    (.returned [.char 'a', .char 'b', .char 'x'], Store.new .unlimited) := by rfl

end Grammar

end TwoWayGrammar
