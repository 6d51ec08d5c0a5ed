import TwoWayGrammar.Proofs.Store.Conversion

namespace TwoWayGrammar.Run

variable {α β γ : Type}

/-- Changing the result of a run leaves the store that the run leads to. -/
theorem map_apply (change : α → β) (run : Run α) (held : AddressSet) (store : Store) :
    (change <$> run) held store = ((run held store).1.map change, (run held store).2) := by
  rw [map_eq_pure_bind, bind_apply]
  rcases run held store with ⟨_ | _ | _, after⟩ <;> rfl

theorem map_stop (change : α → β) (fault : Fault) : change <$> (stop fault : Run α) = stop fault := by
  funext held store
  rw [map_apply]
  rfl

theorem map_diverge (change : α → β) : change <$> (diverge : Run α) = diverge := by
  funext held store
  rw [map_apply]
  rfl

theorem map_holding (change : α → β) (cells : AddressSet) (run : Run α) :
    change <$> holding cells run = holding cells (change <$> run) := by
  funext held store
  rw [map_apply, holding, holding, map_apply]
  rcases run (held ∪ cells) store with ⟨_ | _ | _, after⟩ <;> rfl

/-- The exit line does not show the result, so the result may change before the line is logged. -/
theorem map_traced (change : α → β) (operation name : Text) (ok : Bool) (run : Run α) :
    change <$> traced operation name (fun _ => ok) run =
      traced operation name (fun _ => ok) (change <$> run) := by
  funext held store
  rw [map_apply, traced_apply, traced_apply]
  rcases store.log.enter operation name with _ | entered
  · rfl
  · dsimp only
    rw [map_apply]
    rcases run held { store with log := entered } with ⟨_ | _ | _, left⟩
    · dsimp only [Outcome.map]
      rcases left.log.leave operation name ok with _ | _ <;> rfl
    · dsimp only [Outcome.map]
      rcases left.log.leave operation name false with _ | _ <;> rfl
    · rfl

section Matches

variable (change : α → β) (run : Run (Match α))

/-- A success that only changes the value is a change of the match. -/
theorem onSuccess_success :
    (onSuccess run fun value rest => pure (.success (change value) rest)) =
      Match.map change <$> run := by
  rw [map_eq_pure_bind, onSuccess]
  refine bind_congr fun found => ?_
  cases found <;> rfl

/-- Two changes of the value are one change. -/
theorem map_map (further : β → γ) :
    Match.map further <$> Match.map change <$> run = Match.map (further ∘ change) <$> run := by
  rw [← comp_map]
  congr 1
  funext found
  cases found <;> rfl

theorem onSuccess_pure : (onSuccess run fun value rest => pure (.success value rest)) = run := by
  conv => rhs; rw [← bind_pure run]
  rw [onSuccess]
  refine bind_congr fun found => ?_
  cases found <;> rfl

theorem onSuccess_pure_success (value : α) (rest : Input) (next : α → Input → Run (Match β)) :
    onSuccess (pure (.success value rest)) next = next value rest :=
  pure_bind _ _

theorem map_onSuccess (next : γ → Input → Run (Match α)) (first : Run (Match γ)) :
    Match.map change <$> onSuccess first next =
      onSuccess first fun value rest => Match.map change <$> next value rest := by
  rw [onSuccess, map_bind, onSuccess]
  refine bind_congr fun found => ?_
  cases found with
  | success value rest => rfl
  | failure rest => exact map_pure _ _

theorem map_onFailure (other : Run (Match α)) :
    Match.map change <$> onFailure run other =
      onFailure (Match.map change <$> run) (Match.map change <$> other) := by
  rw [onFailure, map_bind, onFailure, bind_map_left]
  refine bind_congr fun found => ?_
  cases found with
  | success value rest => exact map_pure _ _
  | failure rest => rfl

theorem onSuccess_assoc (next : α → Input → Run (Match β)) (last : β → Input → Run (Match γ)) :
    onSuccess (onSuccess run next) last =
      onSuccess run fun value rest => onSuccess (next value rest) last := by
  rw [onSuccess, onSuccess, bind_assoc, onSuccess]
  refine bind_congr fun found => ?_
  cases found with
  | success value rest => rfl
  | failure rest => exact pure_bind _ _

theorem onFailure_assoc (second third : Run (Match α)) :
    onFailure (onFailure run second) third = onFailure run (onFailure second third) := by
  rw [onFailure, onFailure, bind_assoc, onFailure]
  refine bind_congr fun found => ?_
  cases found with
  | success value rest => exact pure_bind _ _
  | failure rest => rfl

end Matches

end TwoWayGrammar.Run
