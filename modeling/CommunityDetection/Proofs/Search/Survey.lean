import CommunityDetection.Search.Iteration

/-!
# The two halves of an iteration

An iteration first surveys its level: it moves the nodes and measures the modularity. Then it
concludes: it reports a summary, records the communities and goes on (`step_eq`). Only the second half
reads the hierarchy and writes a summary.
-/

namespace CommunityDetection.Search

variable {σ α : Type}

/-- No further iteration can follow: nothing moved, or every node is alone. -/
def State.Settled (state : State α) (count : Nat) : Prop :=
  count = 0 ∨ state.level.communityCount = state.level.graph.nodeCount

instance (state : State α) (count : Nat) : Decidable (state.Settled count) :=
  inferInstanceAs (Decidable (_ ∨ _))

def State.Measures (moved : State α) (moves : Nat) : Prop :=
  ¬moved.Settled moves ∨ moved.seeding.isSeeded = true ∧ moved.iteration = 0

instance (moved : State α) (moves : Nat) : Decidable (moved.Measures moves) :=
  inferInstanceAs (Decidable (_ ∨ _))

variable [Scalar α]

def measureNeeded (plan : Plan σ α) (moved : State α) (moves : Nat) : Session α (Option α) :=
  if moved.Measures moves then some <$> measure plan moved else pure none

def survey (plan : Plan σ α) (state : State α) : Session α (State α × Nat × Option α) := do
  Session.report (.begins .iteration)
  let (moved, moves) ← moveNodes plan state
  let measured ← measureNeeded plan moved moves
  return (moved, moves, measured)

def descendFurther (plan : Plan σ α) (further : Bool) (recorded : State α) : Session α (State α) :=
  if further then descend plan recorded else pure recorded

def proceed (plan : Plan σ α) (further : Bool) (modularity : α) (recorded : State α) :
    Session α (Outcome α) := do
  let next ← descendFurther plan further recorded
  Session.report (.ends .iteration)
  return .completed (next.complete modularity)

def weigh (plan : Plan σ α) (further : Bool) :
    State α × Nat × Option α → Session α (Outcome α)
  | (moved, moves, measured) => do
    let modularity := measured.getD 0
    if moved.Settled moves then
      Session.report (.ends .iteration)
      return .ended
        { state := moved, didConverge := true, terminalState := .converged, ofSeeds := measured }
    match Progress.of plan.config.tolerance moved.modularities.back? modularity with
    | .decreased =>
      Session.note (.decreased moved.iteration)
      Session.report (.ends .iteration)
      return .ended
        { state := moved, didConverge := false, terminalState := .toleranceExhausted, ofSeeds := none }
    | .slight =>
      let recorded ← Session.ofExcept moved.record
      Session.report (.ends .iteration)
      return .ended
        { state := recorded.complete modularity, didConverge := true, terminalState := .converged
          ofSeeds := none }
    | .substantial =>
      let recorded ← Session.ofExcept moved.record
      proceed plan further modularity recorded

def summary : State α × Nat × Option α → Event α
  | (moved, moves, measured) =>
    .summary moved.iteration moves moved.level.communityCount (measured.getD 0)

def conclude (plan : Plan σ α) (further : Bool) (found : State α × Nat × Option α) :
    Session α (Outcome α) := do
  Session.report (summary found)
  weigh plan further found

theorem step_eq (plan : Plan σ α) (further : Bool) (state : State α) :
    step plan further state = survey plan state >>= conclude plan further := by
  have atEnd (moved : State α) (moves : Nat) :
      (moves == 0 || moved.level.communityCount == moved.level.graph.nodeCount) =
        decide (moved.Settled moves) := by
    rw [Bool.eq_iff_iff, decide_eq_true_iff]
    simp [State.Settled]
  have measures (moved : State α) (moves : Nat) :
      ((!decide (moved.Settled moves) || (decide (moved.Settled moves) && moved.seeding.isSeeded &&
        moved.iteration == 0)) = true) = moved.Measures moves := by
    by_cases settled : moved.Settled moves
    · simp [State.Measures, settled]
    · simp [State.Measures, settled]
  simp only [step, survey, measureNeeded, bind_assoc, pure_bind, atEnd, measures, decide_eq_true_eq]
  refine bind_congr fun _ => bind_congr fun found => ?_
  by_cases measured : found.1.Measures found.2
  · simp only [if_pos measured]
    refine bind_congr fun modularity => ?_
    cases further with
    | true => rfl
    | false => rfl
  · simp only [if_neg measured]
    cases further with
    | true => rfl
    | false => rfl

def resume (plan : Plan σ α) (left : Nat) : Outcome α → Session α (Ending α)
  | .ended ending => pure ending
  | .completed state => iterate plan left state

theorem iterate_succ (plan : Plan σ α) (left : Nat) (state : State α) :
    iterate plan (left + 1) state =
      survey plan state >>= fun found => conclude plan (left != 0) found >>= resume plan left := by
  rw [iterate, step_eq, bind_assoc]
  refine bind_congr fun found => bind_congr fun outcome => ?_
  cases outcome with
  | ended ending => rfl
  | completed next => rfl

end CommunityDetection.Search
