import CommunityDetection.Proofs.Search.Reached

/-!
# How searches fail

A search that was not stopped fails with its seeds or in one of its iterations: at the start of the
local moves, in one of their passes, or with a root node that leads to no node (`Search.Fails`).
`Problem.run_error` gives the iteration that a failure comes from.
-/

namespace CommunityDetection

namespace Search

open Session

variable {σ α : Type} [Scalar α] {plan : Plan σ α} {further : Bool} {left : Nat}
  {start state moved recorded : State α} {count moves : Nat} {merged : Nat → Nat}
  {failure : Error α}

inductive Fails (plan : Plan σ α) (state : State α) : Error α → Prop
  | cancelled : Fails plan state .cancelled
  | start {fault : Inconsistency α} (failed : state.level.moveStart = .error fault) :
      Fails plan state (.inconsistent fault)
  | moves {failure : Error α} {start : LocalMove.State α} (starts : state.level.moveStart = .ok start)
      (failed : (LocalMove.run (state.moveSetting plan)
        start).failure? = some failure) :
      Fails plan state failure
  | record {failure : Error α} {moved : State α} {count : Nat} (moves : Moves plan state count moved)
      (failed : moved.record = .error failure) : Fails plan state failure
  | descend {failure : Error α} {moved recorded : State α} {count : Nat}
      (moves : Moves plan state count moved) (records : moved.record = .ok recorded)
      (failed : recorded.hierarchy.descend recorded.level.graph (refined plan recorded).parts =
        .error failure) :
      Fails plan state failure

theorem moveNodes_fails : (moveNodes plan state).FailsOnly (Fails plan state) := by
  refine FailsOnly.stage <| (failsOnly_ofExcept fun failure failed => ?_).bind fun start starts => ?_
  · cases found : state.level.moveStart with
    | ok start =>
      rw [found] at failed
      cases failed
    | error fault =>
      rw [found] at failed
      cases failed
      exact .start found
  · refine (failsOnly_checkpoint .cancelled _).bind fun _ _ => ?_
    refine (failsOnly_forM fun _ => failsOnly_note _).bind fun _ _ => ?_
    cases failed : (LocalMove.run (state.moveSetting plan)
      start).failure? with
    | some failure => exact failsOnly_throw (.moves starts.of_mapError failed)
    | none => exact failsOnly_pure _

theorem survey_fails : (survey plan state).FailsOnly (Fails plan state) := by
  refine (failsOnly_report _).bind fun _ _ => moveNodes_fails.bind fun _ _ => ?_
  refine FailsOnly.bind ?_ fun _ _ => failsOnly_pure _
  unfold measureNeeded
  split
  · refine FailsOnly.map (FailsOnly.stage ?_) _
    exact (failsOnly_checkpoint .cancelled _).bind fun _ _ => failsOnly_pure _
  · exact failsOnly_pure _

theorem proceed_fails {modularity : α} (moves : Moves plan state count moved)
    (records : moved.record = .ok recorded) :
    (proceed plan further modularity recorded).FailsOnly (Fails plan state) := by
  have ends : (report (.ends .iteration) : Session α Unit).FailsOnly (Fails plan state) :=
    failsOnly_report _
  refine FailsOnly.bind ?_ fun _ _ => ends.bind fun _ _ => failsOnly_pure _
  unfold descendFurther
  split
  · refine FailsOnly.bind ?_ fun result _ => ?_
    · refine FailsOnly.stage <| (failsOnly_checkpoint .cancelled _).bind fun _ _ => ?_
      refine (failsOnly_ofExcept ?_).bind fun _ _ => failsOnly_pure _
      exact fun failure failed => .descend moves records failed
    · refine FailsOnly.stage <| (failsOnly_checkpoint .cancelled _).bind fun _ _ => ?_
      exact (failsOnly_note _).bind fun _ _ => failsOnly_pure _
  · exact failsOnly_pure _

theorem weigh_fails {measured : Option α} (found : Moves plan state count moved) :
    (weigh plan further (moved, count, measured)).FailsOnly (Fails plan state) := by
  have ends : (report (.ends .iteration) : Session α Unit).FailsOnly (Fails plan state) :=
    failsOnly_report _
  have records : (ofExcept moved.record).FailsOnly (Fails plan state) :=
    failsOnly_ofExcept fun _ failed => .record found failed
  unfold weigh
  dsimp only
  split
  · exact ends.bind fun _ _ => failsOnly_pure _
  · split
    · exact (failsOnly_note _).bind fun _ _ => ends.bind fun _ _ => failsOnly_pure _
    · exact records.bind fun _ _ => ends.bind fun _ _ => failsOnly_pure _
    · exact records.bind fun _ gives => proceed_fails found gives.ofExcept

theorem step_fails : (step plan further state).FailsOnly (Fails plan state) := by
  rw [step_eq]
  refine survey_fails.bind fun found surveys => ?_
  exact (failsOnly_report _).bind fun _ _ => weigh_fails (survey_gives surveys).1

theorem Reached.iterate_fails (reached : Reached plan start state merged) :
    (iterate plan left state).FailsOnly fun failure =>
      ∃ last merged, Reached plan start last merged ∧ Fails plan last failure := by
  induction left generalizing state merged with
  | zero => exact failsOnly_pure _
  | succ left ih =>
    refine FailsOnly.bind ?_ fun outcome steps => ?_
    · intro watch journal failure failed
      exact ⟨state, merged, reached, step_fails watch journal failure failed⟩
    · cases outcome with
      | ended ending => exact failsOnly_pure _
      | completed next =>
        -- A further iteration starts in the state below only if this one went down.
        cases left with
        | zero => exact failsOnly_pure _
        | succ left =>
          obtain ⟨merged, reached⟩ := reached.step (step_gives steps)
          exact ih reached

end Search

namespace Problem

variable {σ α : Type} [Scalar α] {problem : Problem α} {sampler : Sampler σ α} {watch : Watch α}
  {failure : Error α}

inductive Fails (problem : Problem α) (sampler : Sampler σ α) : Error α → Prop
  | cancelled : Fails problem sampler .cancelled
  | seeds {failure : Error α}
      (failed : Seeding.resolve problem.graph.nodeCount problem.seeds = .error failure) :
      Fails problem sampler failure
  | iteration {plan : Search.Plan σ α} {state : Search.State α} {merged : Nat → Nat}
      {failure : Error α} (enters : problem.Enters sampler plan state merged)
      (failed : Search.Fails plan state failure) : Fails problem sampler failure

theorem run_error (failed : (problem.run sampler watch).1 = .error failure) :
    problem.Fails sampler failure := by
  refine Session.FailsOnly.of_run ?_ failed
  refine Session.FailsOnly.bind ?_ fun ⟨start, scale⟩ setsUp => ?_
  · refine Session.FailsOnly.stage ?_
    refine (Session.failsOnly_ofExcept fun _ => .seeds).bind fun _ _ => ?_
    exact (Session.failsOnly_checkpoint .cancelled _).bind fun _ _ => Session.failsOnly_pure _
  · obtain ⟨assignment, seeding, resolved, rfl, rfl⟩ := setUp_gives setsUp
    refine Session.FailsOnly.bind ?_ fun _ _ =>
      (Session.failsOnly_note _).bind fun _ _ => Session.failsOnly_pure _
    intro watch journal failure failed
    obtain ⟨last, merged, reached, fails⟩ :=
      Search.Reached.start.iterate_fails watch journal failure failed
    exact .iteration ⟨assignment, seeding, resolved, rfl, reached⟩ fails

end Problem

end CommunityDetection
