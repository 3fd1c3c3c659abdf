import CommunityDetection.Proofs.LocalMove.Turns
import CommunityDetection.Proofs.Progress.Matching
import CommunityDetection.Proofs.Search.Run

/-!
# Searches that differ in the ids of their nodes

Only the hierarchy reads how a graph translates the ids of its nodes, and only the setup whether it has
weights. So two states with the same rows, communities and volumes are surveyed alike, whatever ids their
nodes have.
-/

namespace CommunityDetection

namespace Level

variable {σ α : Type} {level other : Level α}

/-- The level without the ids and the properties of its nodes, and with weights of its own. -/
def bare (level : Level α) : Level α := { level with graph := { level.graph.bare with weighted := true } }

theorem nodeCount_congr (same : level.bare = other.bare) :
    level.graph.nodeCount = other.graph.nodeCount :=
  (congrArg (fun level : Level α => level.graph.nodeCount) same :)

theorem communityCount_congr (same : level.bare = other.bare) :
    level.communityCount = other.communityCount := (congrArg communityCount same :)

theorem assignment_congr (same : level.bare = other.bare) : level.assignment = other.assignment :=
  (congrArg assignment same :)

theorem moveStart_congr (same : level.bare = other.bare) : level.moveStart = other.moveStart :=
  (congrArg moveStart same :)

theorem moved_congr (same : level.bare = other.bare) (state : LocalMove.State α) :
    (level.moved state).bare = (other.moved state).bare :=
  (congrArg (fun level : Level α => (level.moved state).bare) same :)

variable [Scalar α] {scale : Scale α} {concurrency : Nat}

theorem modularity_congr (same : level.bare = other.bare) :
    level.modularity scale concurrency = other.modularity scale concurrency :=
  (congrArg (fun level : Level α => level.modularity scale concurrency) same :)

theorem refine_congr (same : level.bare = other.bare) (sampler : Sampler σ α) :
    level.refine scale concurrency sampler = other.refine scale concurrency sampler :=
  (congrArg (fun level : Level α => level.refine scale concurrency sampler) same :)

theorem coarsen_congr (same : level.bare = other.bare) (refined : Refinement.Result α) :
    level.coarsen refined = other.coarsen refined :=
  (congrArg (fun level : Level α => level.coarsen refined) same :)

theorem run_congr (same : level.bare = other.bare) (turns : Nat → List Turn) (state : LocalMove.State α) :
    LocalMove.run (level.moveSetting scale concurrency turns) state =
      LocalMove.run (other.moveSetting scale concurrency turns) state := by
  have bare (level : Level α) : LocalMove.run (level.bare.moveSetting scale concurrency turns) state =
      LocalMove.run (level.moveSetting scale concurrency turns) state := by
    apply LocalMove.run_congr
    · rfl
    · rfl
    · exact fun _ _ _ => LocalMove.sweep_congr (by rfl) (by rfl) (by rfl) _ _ _
  rw [← bare level, ← bare other, same]

end Level

namespace Search

open Session

variable {σ α : Type} {left right : State α} {count : Nat}

structure Alike (left right : State α) : Prop where
  level : left.level.bare = right.level.bare
  seeding : left.seeding = right.seeding
  tracker : left.toTracker = right.toTracker

theorem Alike.settled_iff (alike : Alike left right) : left.Settled count ↔ right.Settled count := by
  unfold State.Settled
  rw [Level.communityCount_congr alike.level, Level.nodeCount_congr alike.level]

theorem Alike.iteration (alike : Alike left right) : left.iteration = right.iteration :=
  congrArg Tracker.iteration alike.tracker

theorem Alike.modularities (alike : Alike left right) : left.modularities = right.modularities :=
  congrArg Tracker.modularities alike.tracker

theorem Alike.latest (alike : Alike left right) : left.latest = right.latest :=
  congrArg Tracker.latest alike.tracker

structure MovedAlike (left right leftMoved rightMoved : State α) : Prop where
  alike : Alike leftMoved rightMoved
  graph : leftMoved.level.graph = left.level.graph
  hierarchy : leftMoved.hierarchy = left.hierarchy
  rightHierarchy : rightMoved.hierarchy = right.hierarchy
  tracker : leftMoved.toTracker = left.toTracker

theorem MovedAlike.modularities {leftMoved rightMoved : State α}
    (moved : MovedAlike left right leftMoved rightMoved) :
    leftMoved.modularities = left.modularities := congrArg Tracker.modularities moved.tracker

theorem Alike.moved (alike : Alike left right) (reached : LocalMove.State α) :
    MovedAlike left right { left with level := left.level.moved reached }
      { right with level := right.level.moved reached } :=
  ⟨⟨Level.moved_congr alike.level _, alike.seeding, alike.tracker⟩, rfl, rfl, rfl, rfl⟩

variable [Scalar α] {plan : Plan σ α}

theorem State.run_congr (same : left.level.bare = right.level.bare)
    (iteration : left.iteration = right.iteration) (start : LocalMove.State α) :
    LocalMove.run (left.moveSetting plan) start = LocalMove.run (right.moveSetting plan) start := by
  rw [State.moveSetting, State.moveSetting, iteration]
  exact Level.run_congr same _ start

theorem moveNodes_matches (same : left.level.bare = right.level.bare)
    (iteration : left.iteration = right.iteration) :
    (moveNodes plan left).Matches (fun first second => ∃ reached count,
      first = ({ left with level := left.level.moved reached }, count) ∧
        second = ({ right with level := right.level.moved reached }, count)) (moveNodes plan right) := by
  refine Matches.stage ?_ _
  dsimp only
  rw [Level.moveStart_congr same]
  refine matches_bind_same fun start _ => ?_
  rw [Level.nodeCount_congr same]
  refine matches_bind_same fun _ _ => ?_
  rw [State.run_congr same iteration]
  refine matches_bind_same fun _ _ => ?_
  cases (LocalMove.run (right.moveSetting plan) start).failure? with
  | some failure => exact matches_throw failure
  | none => exact matches_pure ⟨_, _, rfl, rfl⟩

theorem Alike.moveNodes_matches (alike : Alike left right) :
    (moveNodes plan left).Matches (fun first second => first.2 = second.2 ∧
      MovedAlike left right first.1 second.1) (moveNodes plan right) := by
  refine (Search.moveNodes_matches alike.level alike.iteration).of_gives ?_
  intro first second ⟨reached, count, here, there⟩ _ _
  rw [here, there]
  exact ⟨rfl, alike.moved reached⟩

theorem Alike.measureNeeded_eq (alike : Alike left right) :
    measureNeeded plan left count = measureNeeded plan right count := by
  have needed : left.Measures count = right.Measures count := by
    unfold State.Measures
    rw [alike.settled_iff, alike.seeding, alike.iteration]
  have measured : measure plan left = measure plan right := by
    unfold measure
    rw [Level.nodeCount_congr alike.level, Level.modularity_congr alike.level]
  simp only [measureNeeded, needed, measured]

theorem Alike.survey_matches (alike : Alike left right) :
    (survey plan left).Matches (fun first second => first.2 = second.2 ∧
      MovedAlike left right first.1 second.1) (survey plan right) := by
  refine matches_bind_same fun _ _ => ?_
  refine alike.moveNodes_matches.bind fun first second ⟨same, moved⟩ _ _ => ?_
  obtain ⟨leftMoved, count⟩ := first
  obtain ⟨rightMoved, other⟩ := second
  cases same
  dsimp only
  rw [moved.alike.measureNeeded_eq]
  exact matches_bind_same fun _ _ => matches_pure ⟨rfl, moved⟩

theorem Alike.summary_eq (alike : Alike left right) (measured : Option α) :
    summary (left, count, measured) = summary (right, count, measured) := by
  unfold summary
  dsimp only
  rw [alike.iteration, Level.communityCount_congr alike.level]

theorem Alike.refined_eq (alike : Alike left right) (plan : Plan σ α) :
    refined plan left = refined plan right := by
  unfold refined
  rw [Level.refine_congr alike.level, alike.iteration]

end Search

end CommunityDetection
