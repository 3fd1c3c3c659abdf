import CommunityDetection.Proofs.Search.Chronicle

/-!
# Searches are determined

The moves of an iteration and the way down are functions of its state, so what an iteration leads to
depends only on its moves and on whether a further one is to follow (`Step.concludes`). A run passes
through every state that is reached within its number of iterations (`Reached.run`), and it ends there
or with the last of them (`Run.closes`).
-/

namespace CommunityDetection.Search

section Progress

variable {α : Type} [Scalar α] {tolerance after : α} {previous : Option α}

theorem Progress.of_some (tolerance before after : α) : Progress.of tolerance (some before) after =
    if after - before < 0 then .decreased else if after - before < tolerance then .slight
    else .substantial := rfl

theorem Progress.of_eq_decreased_iff : Progress.of tolerance previous after = .decreased ↔
    ∃ before, previous = some before ∧ after - before < 0 := by
  cases previous with
  | none => simp [Progress.of]
  | some before =>
    rw [Progress.of_some]
    split_ifs <;> simp [*]

theorem Progress.of_eq_slight_iff : Progress.of tolerance previous after = .slight ↔
    ∃ before, previous = some before ∧ ¬after - before < 0 ∧ after - before < tolerance := by
  cases previous with
  | none => simp [Progress.of]
  | some before =>
    rw [Progress.of_some]
    split_ifs <;> simp [*]

theorem Progress.of_eq_substantial_iff : Progress.of tolerance previous after = .substantial ↔
    ∀ before, previous = some before → ¬after - before < 0 ∧ ¬after - before < tolerance := by
  cases previous with
  | none => simp [Progress.of]
  | some before =>
    rw [Progress.of_some]
    split_ifs <;> simp [*]

end Progress

variable {σ α : Type} [Scalar α] {plan : Plan σ α} {further : Bool} {left limit count other : Nat}
  {start state moved otherMoved recorded next otherNext : State α} {merged : Nat → Nat}
  {ending : Ending α} {outcome : Outcome α}

theorem Moves.unique (moves : Moves plan state count moved)
    (others : Moves plan state other otherMoved) : count = other ∧ moved = otherMoved := by
  cases moves with
  | intro starts =>
    cases others with
    | intro startsOther =>
      rw [starts] at startsOther
      cases startsOther
      exact ⟨rfl, rfl⟩

theorem Descends.unique (descends : Descends plan state next)
    (others : Descends plan state otherNext) : next = otherNext := by
  cases descends with
  | intro follows =>
    cases others with
    | intro followsOther =>
      rw [follows] at followsOther
      cases followsOther
      rfl

/-- What an iteration leads to, given the state after its moves and their number. -/
inductive Concludes (plan : Plan σ α) (further : Bool) (moved : State α) (count : Nat) :
    Outcome α → Prop
  | settled (settled : moved.Settled count) :
      Concludes plan further moved count (.ended
        { state := moved, didConverge := true, terminalState := .converged
          ofSeeds := if moved.seeding.isSeeded ∧ moved.iteration = 0 then
            some (moved.modularity plan) else none })
  | decreased (unsettled : ¬moved.Settled count) (progress : moved.progress plan = .decreased) :
      Concludes plan further moved count (.ended
        { state := moved, didConverge := false, terminalState := .toleranceExhausted
          ofSeeds := none })
  | slight {recorded : State α} (unsettled : ¬moved.Settled count)
      (progress : moved.progress plan = .slight) (records : moved.record = .ok recorded) :
      Concludes plan further moved count (.ended
        { state := recorded.complete (moved.modularity plan), didConverge := true
          terminalState := .converged, ofSeeds := none })
  | last {recorded : State α} (unsettled : ¬moved.Settled count)
      (progress : moved.progress plan = .substantial) (records : moved.record = .ok recorded)
      (alone : further = false) :
      Concludes plan further moved count (.completed (recorded.complete (moved.modularity plan)))
  | descended {recorded next : State α} (unsettled : ¬moved.Settled count)
      (progress : moved.progress plan = .substantial) (records : moved.record = .ok recorded)
      (follows : further = true) (descends : Descends plan recorded next) :
      Concludes plan further moved count (.completed (next.complete (moved.modularity plan)))

theorem Step.concludes (step : Step plan further state outcome)
    (moves : Moves plan state count moved) : Concludes plan further moved count outcome := by
  cases step with
  | settled found settled =>
    obtain ⟨rfl, rfl⟩ := moves.unique found
    exact .settled settled
  | decreased found unsettled progress =>
    obtain ⟨rfl, rfl⟩ := moves.unique found
    exact .decreased unsettled progress
  | slight found unsettled progress records =>
    obtain ⟨rfl, rfl⟩ := moves.unique found
    exact .slight unsettled progress records
  | last found unsettled progress records alone =>
    obtain ⟨rfl, rfl⟩ := moves.unique found
    exact .last unsettled progress records alone
  | descended found unsettled progress records follows descends =>
    obtain ⟨rfl, rfl⟩ := moves.unique found
    exact .descended unsettled progress records follows descends

theorem Descent.step_eq (descent : Descent plan state count moved recorded next)
    (step : Step plan true state outcome) :
    outcome = .completed (next.complete (moved.modularity plan)) := by
  cases step.concludes descent.moves with
  | settled settled => exact absurd settled descent.unsettled
  | decreased _ progress => cases descent.progress.symm.trans progress
  | slight _ progress => cases descent.progress.symm.trans progress
  | last _ _ _ alone => cases alone
  | descended _ _ records _ descends =>
    cases descent.records.symm.trans records
    rw [descent.descends.unique descends]

/-! ## Runs -/

/-- What is left of a run when it comes to a state reached within its number of iterations. -/
theorem Reached.run (reached : Reached plan start state merged) (run : Run plan left start ending)
    (before : state.iteration < start.iteration + left) :
    Run plan (start.iteration + left - state.iteration) state ending := by
  induction reached with
  | start => rwa [Nat.add_sub_cancel_left]
  | @descended state moved _ _ _ _ _ descent ih =>
    -- The run goes on below, since a further iteration is left after this one.
    have later := descent.iteration (moved.modularity plan)
    obtain ⟨rest, more⟩ : ∃ rest, start.iteration + left - state.iteration = rest + 2 :=
      ⟨start.iteration + left - state.iteration - 2, by omega⟩
    have fewer : start.iteration + left - (state.iteration + 1) = rest + 1 := by omega
    have whole := ih (by omega)
    rw [more] at whole
    rw [later, fewer]
    cases whole with
    | ended step => cases descent.step_eq step
    | completed step rest =>
      cases descent.step_eq step
      exact rest

theorem Reached.exists_rest (reached : Reached plan start state merged)
    (run : Run plan left start ending) (before : state.iteration < start.iteration + left) :
    ∃ fewer, Run plan (fewer + 1) state ending := by
  have rest := reached.run run before
  obtain ⟨fewer, equal⟩ := Nat.exists_eq_succ_of_ne_zero (Nat.sub_ne_zero_of_lt before)
  rw [equal] at rest
  exact ⟨fewer, rest⟩

theorem Step.iteration (step : Step plan further state (.completed next)) :
    next.iteration = state.iteration + 1 := by
  cases step with
  | last moves _ _ records _ => rw [iteration_complete, moves.iteration_recorded records]
  | descended moves unsettled progress records _ descends =>
    have descent : Descent plan state _ _ _ _ := ⟨moves, unsettled, progress, records, descends⟩
    exact descent.iteration _

/-- How a search with at most `limit` iterations ends: an iteration ends it, or none is left. -/
inductive Closes (plan : Plan σ α) (limit : Nat) (state : State α) : Ending α → Prop
  | stopped {ending : Ending α} {further : Bool} (before : state.iteration < limit)
      (step : Step plan further state (.ended ending)) : Closes plan limit state ending
  | spent {final : State α} (last : state.iteration + 1 = limit)
      (step : Step plan false state (.completed final)) :
      Closes plan limit state ⟨final, false, .maxIterationsReached, none⟩

theorem Closes.ends (closes : Closes plan limit state ending) : Ends plan state ending := by
  cases closes with
  | stopped _ step => exact .stopped step
  | spent _ step => exact .last step

theorem Closes.before (closes : Closes plan limit state ending) : state.iteration < limit := by
  cases closes with
  | stopped before => exact before
  | spent last => exact last ▸ Nat.lt_succ_self _

theorem Run.closes (run : Run plan left state ending) (reached : Reached plan start state merged)
    (some : left ≠ 0) :
    ∃ last merged, Reached plan start last merged ∧
      Closes plan (state.iteration + left) last ending := by
  induction run generalizing merged with
  | exhausted => exact absurd rfl some
  | ended step =>
    exact ⟨_, _, reached, .stopped (Nat.lt_add_of_pos_right (Nat.pos_of_ne_zero some)) step⟩
  | @completed left _ _ _ step rest ih =>
    cases left with
    | zero =>
      cases rest
      exact ⟨_, _, reached, .spent rfl step⟩
    | succ left =>
      obtain ⟨merged, reached⟩ := reached.step step
      obtain ⟨last, merged, reached, closes⟩ := ih reached (Nat.succ_ne_zero left)
      rw [step.iteration, Nat.add_assoc, Nat.add_comm 1] at closes
      exact ⟨last, merged, reached, closes⟩

end CommunityDetection.Search
