import CommunityDetection.Proofs.Search.Level
import CommunityDetection.Proofs.Search.Run

/-!
# The iterations of a search

A search goes from one iteration to the next by a `Descent`: it moves the nodes of a level, records
the communities and goes down to the coarse level of the refined parts. `Reached` gives the states in
which iterations start, each with the node of its level that every root node was merged into, and
`Problem.Enters` those of the searches for the communities of a problem. Every run ends with one of
them (`Run.ends`).
-/

namespace CommunityDetection

namespace Search

variable {σ α : Type} [Scalar α] {plan : Plan σ α} {start state next : State α} {merged : Nat → Nat}
  {left : Nat} {ending : Ending α}

/-- An iteration that a further one follows. -/
structure Descent (plan : Plan σ α) (state : State α) (count : Nat) (moved recorded next : State α) :
    Prop where
  moves : Moves plan state count moved
  unsettled : ¬moved.Settled count
  progress : moved.progress plan = .substantial
  records : moved.record = .ok recorded
  descends : Descends plan recorded next

/-- The states in which iterations start, with the node that each root node was merged into. -/
inductive Reached (plan : Plan σ α) (start : State α) : State α → (Nat → Nat) → Prop
  | start : Reached plan start start id
  | descended {state moved recorded next : State α} {count : Nat} {merged : Nat → Nat}
      (before : Reached plan start state merged)
      (descent : Descent plan state count moved recorded next) :
      Reached plan start (next.complete (moved.modularity plan))
        (recorded.level.part (refined plan recorded) ∘ merged)

theorem Step.descent (step : Step plan true state (.completed next)) :
    ∃ count moved recorded below, Descent plan state count moved recorded below ∧
      next = below.complete (moved.modularity plan) := by
  cases step with
  | last _ _ _ _ alone => cases alone
  | descended moves unsettled progress records _ descends =>
    exact ⟨_, _, _, _, ⟨moves, unsettled, progress, records, descends⟩, rfl⟩

theorem Reached.step (reached : Reached plan start state merged)
    (step : Step plan true state (.completed next)) : ∃ merged, Reached plan start next merged := by
  obtain ⟨count, moved, recorded, below, descent, rfl⟩ := step.descent
  exact ⟨_, reached.descended descent⟩

inductive Ends (plan : Plan σ α) (state : State α) : Ending α → Prop
  | exhausted : Ends plan state ⟨state, false, .maxIterationsReached, none⟩
  | stopped {ending : Ending α} {further : Bool} (step : Step plan further state (.ended ending)) :
      Ends plan state ending
  | last {final : State α} (step : Step plan false state (.completed final)) :
      Ends plan state ⟨final, false, .maxIterationsReached, none⟩

theorem Run.ends (run : Run plan left state ending) (reached : Reached plan start state merged) :
    ∃ last merged, Reached plan start last merged ∧ Ends plan last ending := by
  induction run generalizing merged with
  | exhausted => exact ⟨_, _, reached, .exhausted⟩
  | ended step => exact ⟨_, _, reached, .stopped step⟩
  | @completed left _ _ _ step rest ih =>
    cases left with
    | zero =>
      -- The last iteration does not go down, so it leads to no state that counts as reached.
      cases rest
      exact ⟨_, _, reached, .last step⟩
    | succ left =>
      obtain ⟨merged, reached⟩ := reached.step step
      exact ih reached

end Search

variable {σ α : Type} [Scalar α]

/-- An iteration of a search for the communities of a problem starts in a state, with a plan that the
problem fixes, and with the node that each root node was merged into. -/
def Problem.Enters (problem : Problem α) (sampler : Sampler σ α) (plan : Search.Plan σ α)
    (state : Search.State α) (merged : Nat → Nat) : Prop :=
  ∃ assignment seeding,
    Seeding.resolve (α := α) problem.graph.nodeCount problem.seeds = .ok (assignment, seeding) ∧
    plan = ⟨problem.config, problem.scale assignment, sampler⟩ ∧
    Search.Reached plan (problem.begin assignment seeding sampler.schedule.additions) state merged

theorem Problem.enters_unseeded (problem : Problem α) (sampler : Sampler σ α)
    (unseeded : problem.seeds = none) :
    problem.Enters sampler
      ⟨problem.config, problem.scale (.singletons problem.graph.nodeCount), sampler⟩
      (problem.begin (.singletons problem.graph.nodeCount) (.unseeded problem.graph.nodeCount)
        sampler.schedule.additions) id :=
  ⟨_, _, by rw [unseeded]; rfl, rfl, .start⟩

end CommunityDetection
