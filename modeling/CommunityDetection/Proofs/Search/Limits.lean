import CommunityDetection.Proofs.Comparison
import CommunityDetection.Proofs.Search.Contest
import CommunityDetection.Proofs.Search.Determined
import CommunityDetection.Proofs.Search.Workers

/-!
# Searches with wider limits

The largest number of iterations and the tolerance only say when a search stops. A search with wider
limits and the same schedule reaches every state that the narrower one reaches (`Reached.withLimits`) and goes
on from the last of them, so the records of the one are the first records of the other (`run_prefixes`). Where
the narrow search has come to rest, both give the same result. With several workers the schedule is part of
what they must share.
-/

namespace CommunityDetection

namespace Search

variable {σ α : Type} {plan : Plan σ α} {limit other : Nat} {tolerance : α}

def Plan.withLimits (plan : Plan σ α) (maxLevels : Nat) (tolerance : α) : Plan σ α :=
  { plan with config := { plan.config with maxLevels, tolerance } }

/-- The records of a state are the first ones of another state. -/
structure Prefixes (state next : State α) : Prop where
  keepAll : next.hierarchy.keepAll = state.hierarchy.keepAll
  levels : state.hierarchy.keepAll = true →
    state.hierarchy.levels.toList <+: next.hierarchy.levels.toList
  modularities : state.modularities.toList <+: next.modularities.toList

variable {state moved recorded next : State α} {ending : Ending α} {outcome : Outcome α}
  {further : Bool} {left count : Nat} {merged : Nat → Nat} {start : State α}

theorem SameRecords.prefixes (same : SameRecords next state) : Prefixes state next where
  keepAll := same.keepAll
  levels _ := by rw [same.levels]
  modularities := by rw [same.modularities]

theorem Prefixes.refl (state : State α) : Prefixes state state := SameRecords.prefixes ⟨rfl, rfl, rfl⟩

theorem Prefixes.trans (first : Prefixes start state) (second : Prefixes state next) :
    Prefixes start next where
  keepAll := second.keepAll.trans first.keepAll
  levels kept := (first.levels kept).trans (second.levels (first.keepAll.trans kept))
  modularities := first.modularities.trans second.modularities

variable [Scalar α]

theorem prefixes_recorded (moves : Moves plan state count moved) (records : moved.record = .ok recorded)
    (modularity : α) : Prefixes state (recorded.complete modularity) := by
  have same := moves.sameRecords
  have hierarchy := congrArg State.hierarchy (record_ok records)
  refine ⟨?_, fun kept => ?_, ?_⟩
  · exact (congrArg Hierarchy.keepAll hierarchy).trans same.keepAll
  · have kept : moved.hierarchy.keepAll = true := same.keepAll.trans kept
    have levels := congrArg Hierarchy.levels hierarchy
    simp only [Hierarchy.push, kept, if_true, same.levels] at levels
    show _ <+: recorded.hierarchy.levels.toList
    simp [levels]
  · rw [modularities_complete, tracker_record records, moves.tracker_eq]
    simp

theorem Step.prefixes (step : Step plan further state outcome) : Prefixes state outcome.after := by
  cases step with
  | settled moves => exact moves.sameRecords.prefixes
  | decreased moves => exact moves.sameRecords.prefixes
  | slight moves _ _ records => exact prefixes_recorded moves records _
  | last moves _ _ records => exact prefixes_recorded moves records _
  | descended moves _ _ records _ descends =>
    apply (prefixes_recorded moves records _).trans
    exact ((descends.sameRecords (leads_recorded records)).complete _).prefixes

theorem Run.prefixes (run : Run plan left state ending) : Prefixes state ending.state := by
  induction run with
  | exhausted => exact .refl _
  | ended step => exact step.prefixes
  | completed step _ ih => exact step.prefixes.trans ih

theorem Run.ofSeeds_eq_none (run : Run plan left state ending) (later : state.iteration ≠ 0) :
    ending.ofSeeds = none := by
  induction run with
  | exhausted => rfl
  | ended step =>
    cases step with
    | settled moves =>
      rw [← moves.sameRecords.iteration] at later
      exact if_neg fun first => later first.2
    | decreased => rfl
    | slight => rfl
  | completed step _ ih => exact ih (by rw [step.iteration]; exact Nat.succ_ne_zero _)

/-! ## The same iterations -/

theorem Moves.withLimits (moves : Moves plan state count moved) :
    Moves (plan.withLimits other tolerance) state count moved := by
  cases moves with
  | intro starts settled => exact .intro starts settled

theorem Descends.withLimits (descends : Descends plan state next) :
    Descends (plan.withLimits other tolerance) state next := by
  cases descends with
  | intro follows => exact .intro follows

theorem decreased_withLimits_iff :
    moved.progress (plan.withLimits other tolerance) = .decreased ↔ moved.progress plan = .decreased :=
  Progress.of_eq_decreased_iff.trans Progress.of_eq_decreased_iff.symm

section Wider

variable [Trans (@LT.lt α _) (@LE.le α _) (@LT.lt α _)] (narrow : tolerance ≤ plan.config.tolerance)

include narrow

theorem substantial_withLimits (progress : moved.progress plan = .substantial) :
    moved.progress (plan.withLimits other tolerance) = .substantial := by
  apply Progress.of_eq_substantial_iff.mpr
  intro before found
  obtain ⟨rises, enough⟩ := Progress.of_eq_substantial_iff.mp progress before found
  exact ⟨rises, fun little => enough (trans little narrow)⟩

theorem Descent.withLimits (descent : Descent plan state count moved recorded next) :
    Descent (plan.withLimits other tolerance) state count moved recorded next :=
  ⟨descent.moves.withLimits, descent.unsettled, substantial_withLimits narrow descent.progress,
    descent.records, descent.descends.withLimits⟩

theorem Reached.withLimits (reached : Reached plan start state merged) :
    Reached (plan.withLimits other tolerance) start state merged := by
  induction reached with
  | start => exact .start
  | descended _ descent ih => exact .descended ih (descent.withLimits narrow)

end Wider

/-! ## Ends -/

theorem Run.ending_of_settled (run : Run plan (left + 1) state ending)
    (moves : Moves plan state count moved) (settled : moved.Settled count) :
    ending = ⟨moved, true, .converged,
      if moved.seeding.isSeeded ∧ moved.iteration = 0 then some (moved.modularity plan) else none⟩ := by
  cases run with
  | ended step =>
    cases step.concludes moves with
    | settled => rfl
    | decreased unsettled => exact absurd settled unsettled
    | slight unsettled => exact absurd settled unsettled
  | completed step =>
    cases step.concludes moves with
    | last unsettled => exact absurd settled unsettled
    | descended unsettled => exact absurd settled unsettled

theorem Run.ending_of_decreased (run : Run plan (left + 1) state ending)
    (moves : Moves plan state count moved) (unsettled : ¬moved.Settled count)
    (decreased : moved.progress plan = .decreased) :
    ending = ⟨moved, false, .toleranceExhausted, none⟩ := by
  cases run with
  | ended step =>
    cases step.concludes moves with
    | settled settled => exact absurd settled unsettled
    | decreased => rfl
    | slight _ slight => cases decreased.symm.trans slight
  | completed step =>
    cases step.concludes moves with
    | last _ substantial => cases decreased.symm.trans substantial
    | descended _ substantial => cases decreased.symm.trans substantial

/-- Two searches end alike, or one after the iteration with which the other ends. -/
inductive Truncates (ending longer : Ending α) : Prop
  | same (same : longer = ending)
  | prefixes (ofSeeds : ending.ofSeeds = none) (ofSeedsLonger : longer.ofSeeds = none)
      (prefixes : Prefixes ending.state longer.state)

theorem Run.prefixes_of_records (run : Run plan (left + 1) state ending)
    (moves : Moves plan state count moved) (unsettled : ¬moved.Settled count)
    (kept : moved.progress plan ≠ .decreased) (records : moved.record = .ok recorded) :
    ending.ofSeeds = none ∧ Prefixes (recorded.complete (moved.modularity plan)) ending.state := by
  cases run with
  | ended step =>
    cases step.concludes moves with
    | settled settled => exact absurd settled unsettled
    | decreased _ decreased => exact absurd decreased kept
    | slight _ _ again =>
      cases records.symm.trans again
      exact ⟨rfl, .refl _⟩
  | completed step rest =>
    refine ⟨rest.ofSeeds_eq_none (step.iteration ▸ Nat.succ_ne_zero _), .trans ?_ rest.prefixes⟩
    cases step.concludes moves with
    | last _ _ again =>
      cases records.symm.trans again
      exact .refl _
    | descended _ _ again _ descends =>
      cases records.symm.trans again
      exact ((descends.sameRecords (leads_recorded records)).complete _).prefixes

theorem Closes.truncates (closes : Closes plan limit state ending) {longer : Ending α}
    (run : Run (plan.withLimits other tolerance) (left + 1) state longer) :
    Truncates ending longer := by
  cases closes with
  | stopped _ step =>
    cases step with
    | settled moves settled => exact .same (run.ending_of_settled moves.withLimits settled)
    | decreased moves unsettled progress =>
      exact .same (run.ending_of_decreased moves.withLimits unsettled
        (decreased_withLimits_iff.mpr progress))
    | slight moves unsettled progress records =>
      -- The gain may be enough for the smaller tolerance; in both searches it is recorded.
      obtain ⟨ofSeeds, prefixes⟩ := run.prefixes_of_records moves.withLimits unsettled
        (decreased_withLimits_iff.not.mpr (by simp [progress])) records
      exact .prefixes rfl ofSeeds prefixes
  | spent _ step =>
    cases step with
    | last moves unsettled progress records =>
      obtain ⟨ofSeeds, prefixes⟩ := run.prefixes_of_records moves.withLimits unsettled
        (decreased_withLimits_iff.not.mpr (by simp [progress])) records
      exact .prefixes rfl ofSeeds prefixes
    | descended _ _ _ _ follows => cases follows

omit [Scalar α] in
theorem Truncates.result {longer : Ending α} (truncates : Truncates ending longer) (n : Nat) :
    (ending.result n).modularities <+: (longer.result n).modularities ∧
      Option.Rel (fun first second => first.levels.toList <+: second.levels.toList)
        (ending.result n).dendrogram (longer.result n).dendrogram := by
  cases truncates with
  | same same =>
    subst same
    refine ⟨List.prefix_rfl, ?_⟩
    cases (longer.result n).dendrogram with
    | none => exact .none
    | some dendrogram => exact .some List.prefix_rfl
  | prefixes ofSeeds ofSeedsLonger prefixes =>
    unfold Ending.result Hierarchy.dendrogram?
    rw [ofSeeds, ofSeedsLonger]
    refine ⟨prefixes.modularities, ?_⟩
    dsimp only
    rw [prefixes.keepAll]
    split
    · rename_i kept
      exact .some (prefixes.levels kept)
    · exact .none

end Search

namespace Problem

variable {σ α : Type} [Scalar α] {problem : Problem α} {sampler : Sampler σ α}
  {watch otherWatch : Watch α} {result longer : Result α} {maxLevels : Nat} {tolerance : α}

def withLimits (problem : Problem α) (maxLevels : Nat) (tolerance : α) : Problem α :=
  { problem with config := { problem.config with maxLevels, tolerance } }

end Problem

end CommunityDetection
