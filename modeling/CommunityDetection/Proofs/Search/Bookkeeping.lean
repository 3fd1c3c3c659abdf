import CommunityDetection.Proofs.Search.Determined

/-!
# The books of a search

Whatever ends a search, its result is consistent (`Result.Booked`): there is one modularity and, where
levels are kept, one level for each iteration, the communities are those of the last level, and only
the last gain in modularity may be below the tolerance. A search that stops because modularity decreased
returns what the iteration before recorded (`Problem.RollsBack`). No law of the numbers is assumed, so
all comparisons may fail.
-/

namespace CommunityDetection

namespace Search

theorem getElem?_push_pair {β : Type} {values : Array β} {value before after : β} {i : Nat}
    (first : (values.push value)[i]? = some before)
    (second : (values.push value)[i + 1]? = some after) :
    values[i]? = some before ∧ values[i + 1]? = some after ∨
      i + 1 = values.size ∧ values.back? = some before ∧ value = after := by
  rw [Array.getElem?_push] at first second
  by_cases last : i + 1 = values.size
  · rw [if_neg (by omega)] at first
    rw [if_pos last, Option.some_inj] at second
    refine .inr ⟨last, ?_, second⟩
    rwa [Array.back?_eq_getElem?, ← last, Nat.add_sub_cancel]
  · rw [if_neg last] at second
    have inside := (Array.getElem?_eq_some_iff.mp second).1
    rw [if_neg (by omega)] at first
    exact .inl ⟨first, second⟩

variable {σ α : Type} [Scalar α] {plan : Plan σ α} {limit count : Nat}
  {start state moved recorded next worse : State α} {merged : Nat → Nat} {ending : Ending α}

theorem modularities_recorded (moves : Moves plan state count moved)
    (records : moved.record = .ok recorded) : recorded.modularities = state.modularities := by
  rw [record_ok records]
  exact moves.sameRecords.modularities

theorem Descent.modularities (descent : Descent plan state count moved recorded next) :
    next.modularities = state.modularities := by
  have below := descent.descends.sameRecords (leads_recorded descent.records)
  rw [below.modularities, modularities_recorded descent.moves descent.records]

theorem Moves.gains (moves : Moves plan state count moved)
    (kept : recorded.modularities = state.modularities) {i : Nat} {before after modularity : α}
    (first : (recorded.complete modularity).modularities[i]? = some before)
    (second : (recorded.complete modularity).modularities[i + 1]? = some after) :
    state.modularities[i]? = some before ∧ state.modularities[i + 1]? = some after ∨
      i + 2 = (recorded.complete modularity).modularities.size ∧
        moved.modularities.back? = some before ∧ modularity = after := by
  rw [modularities_complete, kept] at first second ⊢
  rw [moves.sameRecords.modularities, Array.size_push]
  refine (getElem?_push_pair first second).imp_right ?_
  rintro ⟨size, last, equal⟩
  exact ⟨congrArg (· + 1) size, last, equal⟩

theorem Reached.gains (reached : Reached plan start state merged) (fresh : start.modularities = #[])
    {i : Nat} {before after : α} (first : state.modularities[i]? = some before)
    (second : state.modularities[i + 1]? = some after) :
    ¬after - before < 0 ∧ ¬after - before < plan.config.tolerance := by
  induction reached with
  | start => simp [fresh] at first
  | @descended state moved _ _ _ _ _ descent ih =>
    rcases descent.moves.gains descent.modularities first second with
      ⟨first, second⟩ | ⟨-, last, rfl⟩
    · exact ih first second
    · exact Progress.of_eq_substantial_iff.mp descent.progress _ last

theorem Closes.iteration (closes : Closes plan limit state ending) :
    ending.state.iteration ≤ limit ∧
      (ending.terminalState = .maxIterationsReached → ending.state.iteration = limit) := by
  cases closes with
  | stopped before step =>
    cases step with
    | settled moves => exact ⟨moves.sameRecords.iteration ▸ before.le, nofun⟩
    | decreased moves => exact ⟨moves.sameRecords.iteration ▸ before.le, nofun⟩
    | slight moves _ _ records =>
      rw [iteration_complete, moves.iteration_recorded records]
      exact ⟨before, nofun⟩
  | spent last step =>
    rw [step.iteration]
    exact ⟨last.le, fun _ => last⟩

theorem Closes.gains (closes : Closes plan limit state ending)
    (gains : ∀ {i : Nat} {before after : α}, state.modularities[i]? = some before →
      state.modularities[i + 1]? = some after →
        ¬after - before < 0 ∧ ¬after - before < plan.config.tolerance)
    {i : Nat} {before after : α} (first : ending.state.modularities[i]? = some before)
    (second : ending.state.modularities[i + 1]? = some after) :
    ¬after - before < 0 ∧ (after - before < plan.config.tolerance →
      i + 2 = ending.state.modularities.size ∧ ending.terminalState = .converged) := by
  have earlier : state.modularities[i]? = some before → state.modularities[i + 1]? = some after →
      ¬after - before < 0 ∧ (after - before < plan.config.tolerance →
        i + 2 = ending.state.modularities.size ∧ ending.terminalState = .converged) := by
    intro first second
    obtain ⟨rises, enough⟩ := gains first second
    exact ⟨rises, fun little => absurd little enough⟩
  cases closes with
  | stopped _ step =>
    cases step with
    | settled moves =>
      rw [moves.sameRecords.modularities] at first second
      exact earlier first second
    | decreased moves =>
      rw [moves.sameRecords.modularities] at first second
      exact earlier first second
    | slight moves _ progress records =>
      rcases moves.gains (modularities_recorded moves records) first second with
        ⟨first, second⟩ | ⟨size, last, rfl⟩
      · exact earlier first second
      · obtain ⟨_, found, rises, -⟩ := Progress.of_eq_slight_iff.mp progress
        cases last.symm.trans found
        exact ⟨rises, fun _ => ⟨size, rfl⟩⟩
  | spent _ step =>
    cases step with
    | last moves _ progress records =>
      rcases moves.gains (modularities_recorded moves records) first second with
        ⟨first, second⟩ | ⟨-, last, rfl⟩
      · exact earlier first second
      · obtain ⟨rises, enough⟩ := Progress.of_eq_substantial_iff.mp progress _ last
        exact ⟨rises, fun little => absurd little enough⟩
    | descended _ _ _ _ follows => cases follows

theorem Ends.didConverge_iff (ends : Ends plan state ending) :
    ending.didConverge = true ↔ ending.terminalState = .converged := by
  cases ends with
  | exhausted => simp
  | last => simp
  | stopped step =>
    cases step with
    | settled => simp
    | decreased => simp
    | slight => simp

theorem Closes.ofSeeds (closes : Closes plan limit state ending) (seeds : ending.ofSeeds ≠ none) :
    ending.terminalState = .converged := by
  cases closes with
  | stopped _ step =>
    cases step with
    | settled => rfl
    | decreased => exact absurd rfl seeds
    | slight => exact absurd rfl seeds
  | spent => exact absurd rfl seeds

/-- What the books of a search with at most `limit` iterations say at its end. -/
structure Ending.Accounted (plan : Plan σ α) (limit : Nat) (ending : Ending α) : Prop where
  iteration_le : ending.state.iteration ≤ limit
  didConverge_iff : ending.didConverge = true ↔ ending.terminalState = .converged
  exhausted : ending.terminalState = .maxIterationsReached → ending.state.iteration = limit
  ofSeeds : ending.ofSeeds ≠ none → limit ≠ 0 ∧ ending.terminalState = .converged
  gains : ∀ (i : Nat) (before after : α), ending.state.modularities[i]? = some before →
    ending.state.modularities[i + 1]? = some after → ¬after - before < 0 ∧
      (after - before < plan.config.tolerance →
        i + 2 = ending.state.modularities.size ∧ ending.terminalState = .converged)

theorem Run.accounted (run : Run plan limit start ending) (fresh : start.toTracker = .start) :
    ending.Accounted plan limit := by
  have beginning : start.iteration = 0 := congrArg Tracker.iteration fresh
  have fresh : start.modularities = #[] := congrArg Tracker.modularities fresh
  by_cases none : limit = 0
  · subst none
    cases run
    exact ⟨beginning.le, by simp, fun _ => beginning, fun seeds => absurd rfl seeds,
      fun _ _ _ first _ => by simp [fresh] at first⟩
  · obtain ⟨last, merged, reached, closes⟩ := run.closes .start none
    rw [beginning, Nat.zero_add] at closes
    obtain ⟨most, exhausted⟩ := closes.iteration
    exact ⟨most, closes.ends.didConverge_iff, exhausted, fun seeds => ⟨none, closes.ofSeeds seeds⟩,
      fun _ _ _ => closes.gains (reached.gains fresh)⟩

theorem Reached.exists_before (reached : Reached plan start state merged)
    (fresh : start.modularities = #[]) (moves : Moves plan state count worse)
    (decreased : worse.progress plan = .decreased) :
    ∃ earlier merged count moved recorded next, Reached plan start earlier merged ∧
      Descent plan earlier count moved recorded next ∧
      state = next.complete (moved.modularity plan) ∧
      worse.iteration = earlier.iteration + 1 ∧
      worse.hierarchy.current? = recorded.hierarchy.current? ∧
      worse.latest = moved.modularity plan ∧
      worse.modularity plan - moved.modularity plan < 0 := by
  obtain ⟨before, found, falls⟩ := Progress.of_eq_decreased_iff.mp decreased
  have same := moves.sameRecords
  cases reached with
  | start =>
    -- There is no modularity yet that this one could fall below.
    simp [same.modularities, fresh] at found
  | descended reached descent =>
    have kept := descent.descends.sameRecords (leads_recorded descent.records)
    have latest := congrArg Tracker.latest same.tracker
    rw [same.modularities, modularities_complete, Array.back?_push, Option.some_inj] at found
    subst found
    refine ⟨_, _, _, _, _, _, reached, descent, rfl, ?_, ?_, latest, falls⟩
    · rw [same.iteration, descent.iteration]
    · exact congrArg Array.back? (same.levels.trans kept.levels)

end Search

variable {σ α : Type} [Scalar α]

/-- The parts of a result agree with each other and with the limits of its search. -/
structure Result.Booked (config : Config α) (result : Result α) : Prop where
  ranIterations_le : result.ranIterations ≤ config.maxLevels
  length_modularities : result.modularities.length = result.ranIterations
  didConverge_iff : result.didConverge = true ↔ result.terminalState = .converged
  exhausted : result.terminalState = .maxIterationsReached → result.ranIterations = config.maxLevels
  levels : ∀ dendrogram, result.dendrogram = some dendrogram →
    dendrogram.levelCount = result.ranIterations ∧
      ∀ level, dendrogram.current? = some level → level = result.communities
  modularity : result.modularity = result.modularities.getLast?.getD 0
  /-- Modularity does not decrease, and only the last gain may be below the tolerance. -/
  gains : ∀ (i : Nat) (before after : α), result.modularities[i]? = some before →
    result.modularities[i + 1]? = some after →
      ¬after - before < 0 ∧ (after - before < config.tolerance →
        i + 2 = result.ranIterations ∧ result.terminalState = .converged)

namespace Problem

variable {problem : Problem α} {sampler : Sampler σ α} {watch : Watch α} {result : Result α}
  {ending : Search.Ending α}

/-- The last iteration of a result was followed by one that decreased modularity, and left no other
trace. -/
inductive RollsBack (problem : Problem α) (sampler : Sampler σ α) (result : Result α) : Prop
  | intro {plan : Search.Plan σ α} {state moved recorded next worse : Search.State α}
      {count worseCount : Nat} {merged : Nat → Nat}
      (enters : problem.Enters sampler plan state merged)
      (iteration : state.iteration + 1 = result.ranIterations)
      (descent : Search.Descent plan state count moved recorded next)
      (communities : recorded.hierarchy.current? = some result.communities)
      (modularity : result.modularity = moved.modularity plan)
      (moves : Search.Moves plan (next.complete (moved.modularity plan)) worseCount worse)
      (decreased : worse.modularity plan - result.modularity < 0)

theorem Reaches.rollsBack (reaches : problem.Reaches sampler ending) {n : Nat}
    (exhausted : (ending.result n).terminalState = .toleranceExhausted) :
    problem.RollsBack sampler (ending.result n) := by
  obtain ⟨assignment, seeding, resolved, run⟩ := reaches
  obtain ⟨last, _, entered, ends⟩ := run.ends .start
  rw [Search.Ending.terminalState_result] at exhausted
  cases ends with
  | exhausted => cases exhausted
  | last => cases exhausted
  | stopped step =>
    cases step with
    | settled => cases exhausted
    | slight => cases exhausted
    | @decreased worse _ moves _ progress =>
      obtain ⟨earlier, _, _, moved, recorded, next, reached, descent, rfl, later, current, measured,
        falls⟩ := entered.exists_before rfl moves progress
      have enters : problem.Enters sampler _ _ _ := ⟨assignment, seeding, resolved, rfl, reached⟩
      obtain ⟨level, recordedLevel⟩ := Search.exists_current descent.records
      have modularity : (Search.Ending.result ⟨worse, false, .toleranceExhausted, none⟩ n).modularity =
          moved.modularity _ := measured
      refine .intro enters later.symm descent ?_ modularity moves ?_
      · rw [Search.Ending.result, current, recordedLevel, Option.getD_some]
      · rwa [modularity]

theorem Reaches.booked (reaches : problem.Reaches sampler ending) :
    (ending.result problem.graph.nodeCount).Booked problem.config := by
  have tracks := reaches.tracks
  obtain ⟨_, _, -, chronicle⟩ := reaches.chronicle
  obtain ⟨assignment, seeding, -, run⟩ := reaches
  have accounted := run.accounted rfl
  unfold Search.Ending.result
  cases seeds : ending.ofSeeds with
  | some modularity =>
    obtain ⟨some, converged⟩ := accounted.ofSeeds (by simp [seeds])
    exact {
      ranIterations_le := Nat.one_le_iff_ne_zero.mpr some
      length_modularities := rfl
      didConverge_iff := accounted.didConverge_iff
      exhausted := by simp [converged]
      levels := by simp
      modularity := rfl
      gains := by simp }
  | none =>
    exact {
      ranIterations_le := accounted.iteration_le
      length_modularities := tracks.size
      didConverge_iff := accounted.didConverge_iff
      exhausted := accounted.exhausted
      levels := by
        intro dendrogram kept
        dsimp only [Hierarchy.dendrogram?] at kept
        split at kept
        · rename_i all
          cases kept
          refine ⟨chronicle.size all, fun level last => ?_⟩
          change ending.state.hierarchy.current? = some level at last
          simp [last]
        · cases kept
      modularity := by simp [tracks.latest]
      gains := by simpa [tracks.size] using accounted.gains }

/-- The books of a search are in order whatever ends it. If modularity decreased, the result is that
of the iteration before. -/
theorem run_booked (ok : (problem.run sampler watch).1 = .ok result) :
    result.Booked problem.config ∧
      (result.terminalState = .toleranceExhausted → problem.RollsBack sampler result) := by
  obtain ⟨ending, reaches, rfl⟩ := run_ok ok
  refine ⟨reaches.booked, fun exhausted => ?_⟩
  exact reaches.rollsBack exhausted

theorem run_booked_star : starResult.Booked (star ℚ).config :=
  (run_booked run_star).1

end Problem

end CommunityDetection
