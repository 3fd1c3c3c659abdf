import CommunityDetection.Proofs.Progress.Calm
import CommunityDetection.Proofs.Search.Run

/-!
# Every run is made

`Step` and `Run` say what an iteration and a run may do. A search that nobody stops returns the ending of every
run there is (`Run.returns`), so what it returns is given by its runs (`run_ok_iff`).
-/

namespace CommunityDetection

namespace Search
open Session

variable {σ α : Type} [Scalar α] {plan : Plan σ α} {state next moved recorded : State α}
  {further : Bool} {left count : Nat} {outcome : Outcome α} {ending : Ending α}

/-! ## The survey -/

theorem Moves.moveNodes_returns (moves : Moves plan state count moved) :
    (moveNodes plan state).Returns (moved, count) := by
  cases moves with
  | intro starts settled =>
    unfold moveNodes
    refine Returns.stage ?_ _
    dsimp only
    rw [starts]
    refine (returns_ofExcept _).bind ?_
    refine (returns_checkpoint _).bind ?_
    refine (returns_forM fun _ => returns_note _).bind ?_
    rw [settled]
    exact returns_pure _

theorem measureNeeded_returns (plan : Plan σ α) (moved : State α) (count : Nat) :
    (measureNeeded plan moved count).Returns (moved.measured plan count) := by
  unfold measureNeeded State.measured
  split
  · refine Returns.map (Returns.stage ?_ _) some
    exact (returns_checkpoint _).bind (returns_pure _)
  · exact returns_pure none

theorem Moves.survey_returns (moves : Moves plan state count moved) :
    (survey plan state).Returns (moved, count, moved.measured plan count) :=
  (returns_report _).bind <| moves.moveNodes_returns.bind <|
    (measureNeeded_returns plan moved count).bind (returns_pure _)

/-! ## The conclusion -/

theorem refine_returns {hierarchy : Hierarchy}
    (follows : state.hierarchy.descend state.level.graph (refined plan state).parts = .ok hierarchy) :
    (refine plan state).Returns (hierarchy, refined plan state) := by
  rw [refine_eq, follows]
  refine Returns.stage ?_ _
  exact (returns_checkpoint _).bind ((returns_ofExcept _).bind (returns_pure _))

theorem coarsen_returns (state : State α) (hierarchy : Hierarchy) (refined : Refinement.Result α) :
    (coarsen state hierarchy refined).Returns { state with
      level := state.level.coarsen refined
      hierarchy
      seeding := state.seeding.carry (state.level.coarsen refined).graph state.level.assignment
        (state.level.coarsen refined).assignment } := by
  refine Returns.stage ?_ _
  exact (returns_checkpoint _).bind ((returns_note _).bind (returns_pure _))

theorem Descends.descend_returns (descends : Descends plan state next) : (descend plan state).Returns next := by
  cases descends with
  | intro follows => exact (refine_returns follows).bind (coarsen_returns state _ _)

theorem proceed_returns (modularity : α) (goes : (descendFurther plan further recorded).Returns next) :
    (proceed plan further modularity recorded).Returns (.completed (next.complete modularity)) :=
  goes.bind ((returns_report _).bind (returns_pure _))

theorem Step.returns (step : Step plan further state outcome) :
    (Search.step plan further state).Returns outcome := by
  have concludes {moved : State α} {count : Nat} (moves : Moves plan state count moved)
      (weighs : (weigh plan further (moved, count, moved.measured plan count)).Returns outcome) :
      (Search.step plan further state).Returns outcome := by
    rw [step_eq]
    exact moves.survey_returns.bind ((returns_report _).bind weighs)
  cases step with
  | settled moves settled =>
    refine concludes moves ?_
    rw [weigh_settled plan further settled]
    exact (returns_report _).bind (returns_pure _)
  | decreased moves unsettled progress =>
    refine concludes moves ?_
    rw [weigh_unsettled plan further unsettled, progress]
    exact (returns_note _).bind ((returns_report _).bind (returns_pure _))
  | slight moves unsettled progress records =>
    refine concludes moves ?_
    rw [weigh_unsettled plan further unsettled, progress, records]
    exact (returns_ofExcept _).bind ((returns_report _).bind (returns_pure _))
  | last moves unsettled progress records alone =>
    refine concludes moves ?_
    rw [weigh_unsettled plan further unsettled, progress, records]
    subst alone
    exact (returns_ofExcept _).bind (proceed_returns _ (returns_pure _))
  | descended moves unsettled progress records follows descends =>
    refine concludes moves ?_
    rw [weigh_unsettled plan further unsettled, progress, records]
    subst follows
    exact (returns_ofExcept _).bind (proceed_returns _ descends.descend_returns)

theorem Run.returns (run : Run plan left state ending) : (iterate plan left state).Returns ending := by
  induction run with
  | exhausted => exact returns_pure _
  | ended step => exact step.returns.bind (returns_pure _)
  | completed step _ ih => exact step.returns.bind ih

end Search

namespace Problem
open Session

variable {σ α : Type} [Scalar α] {problem : Problem α} {sampler : Sampler σ α} {watch : Watch α}
  {result : Result α} {assignment : Assignment} {seeding : Seeding}

theorem setUp_returns (resolved : Seeding.resolve (α := α) problem.graph.nodeCount problem.seeds =
    .ok (assignment, seeding)) (additions : List Nat) :
    (problem.setUp additions).Returns (problem.begin assignment seeding additions, problem.scale assignment) := by
  rw [setUp_eq resolved]
  refine Returns.stage ?_ _
  exact (returns_checkpoint _).bind (returns_pure _)

theorem Reaches.solve_returns {ending : Search.Ending α} (reaches : problem.Reaches sampler ending) :
    (problem.solve sampler).Returns (ending.result problem.graph.nodeCount) := by
  obtain ⟨assignment, seeding, resolved, run⟩ := reaches
  exact (setUp_returns resolved _).bind (run.returns.bind ((returns_note _).bind (returns_pure _)))

theorem run_ok_iff (quiet : ∀ events, watch events = false) :
    (problem.run sampler watch).1 = .ok result ↔
      ∃ ending, problem.Reaches sampler ending ∧ result = ending.result problem.graph.nodeCount := by
  constructor
  · exact run_ok
  · rintro ⟨ending, reaches, rfl⟩
    exact reaches.solve_returns.run quiet

end Problem

end CommunityDetection
