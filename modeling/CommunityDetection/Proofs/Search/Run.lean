import CommunityDetection.Search.Problem
import CommunityDetection.Proofs.Progress.Session
import CommunityDetection.Proofs.Search.Survey

/-!
# Runs of the search

A search that does not fail is a run: iterations in order, each with the local moves of its level,
and, unless it is the last, with the way down to the coarse level. `Step` and `Run` say what an
iteration and a run may do; `step_gives`, `iterate_gives` and `run_ok` show that nothing else happens.
-/

namespace CommunityDetection

namespace Search

variable {σ α : Type} [Scalar α] {plan : Plan σ α} {further : Bool} {left : Nat}
  {state next moved recorded : State α} {count : Nat} {ending : Ending α} {outcome : Outcome α}

inductive Moves (plan : Plan σ α) (state : State α) : Nat → State α → Prop
  | intro {start : LocalMove.State α} (starts : state.level.moveStart = .ok start)
      (settled : (LocalMove.run (state.moveSetting plan)
        start).failure? = none) :
      Moves plan state
        (LocalMove.run (state.moveSetting plan) start).moves
        { state with
          level := state.level.moved
            (LocalMove.run (state.moveSetting plan) start).state }

theorem moves_of_run {start : LocalMove.State α} {report : LocalMove.Report α}
    (starts : state.level.moveStart = .ok start) (ran : LocalMove.run (state.moveSetting plan) start = report)
    (settled : report.failure? = none) :
    Moves plan state report.moves { state with level := state.level.moved report.state } := by
  subst ran
  exact .intro starts settled

def refined (plan : Plan σ α) (state : State α) : Refinement.Result α :=
  (state.level.refine plan.scale plan.config.concurrency plan.sampler
    (plan.sampler.start state.iteration)).1

theorem refine_eq (plan : Plan σ α) (state : State α) :
    refine plan state = Session.stage .refinement (Session.checkpoint state.level.graph.nodeCount >>=
      fun _ => Session.ofExcept (state.hierarchy.descend state.level.graph (refined plan state).parts) >>=
        fun hierarchy => pure (hierarchy, refined plan state)) := rfl

inductive Descends (plan : Plan σ α) (state : State α) : State α → Prop
  | intro {hierarchy : Hierarchy} (follows : state.hierarchy.descend state.level.graph
      (refined plan state).parts = .ok hierarchy) :
      Descends plan state
        { state with
          level := state.level.coarsen (refined plan state)
          hierarchy
          seeding := state.seeding.carry (state.level.coarsen (refined plan state)).graph
            state.level.assignment (state.level.coarsen (refined plan state)).assignment }

def State.modularity (plan : Plan σ α) (state : State α) : α :=
  state.level.modularity plan.scale plan.config.concurrency

def State.progress (plan : Plan σ α) (state : State α) : Progress :=
  .of plan.config.tolerance state.modularities.back? (state.modularity plan)

/-- What an iteration may do. -/
inductive Step (plan : Plan σ α) (further : Bool) (state : State α) : Outcome α → Prop
  | settled {moved : State α} {count : Nat} (moves : Moves plan state count moved)
      (settled : moved.Settled count) :
      Step plan further state (.ended
        { state := moved, didConverge := true, terminalState := .converged
          ofSeeds := if moved.seeding.isSeeded ∧ moved.iteration = 0 then
            some (moved.modularity plan) else none })
  | decreased {moved : State α} {count : Nat} (moves : Moves plan state count moved)
      (unsettled : ¬moved.Settled count) (progress : moved.progress plan = .decreased) :
      Step plan further state (.ended
        { state := moved, didConverge := false, terminalState := .toleranceExhausted
          ofSeeds := none })
  | slight {moved recorded : State α} {count : Nat} (moves : Moves plan state count moved)
      (unsettled : ¬moved.Settled count) (progress : moved.progress plan = .slight)
      (records : moved.record = .ok recorded) :
      Step plan further state (.ended
        { state := recorded.complete (moved.modularity plan), didConverge := true
          terminalState := .converged, ofSeeds := none })
  | last {moved recorded : State α} {count : Nat} (moves : Moves plan state count moved)
      (unsettled : ¬moved.Settled count) (progress : moved.progress plan = .substantial)
      (records : moved.record = .ok recorded) (alone : further = false) :
      Step plan further state (.completed (recorded.complete (moved.modularity plan)))
  | descended {moved recorded next : State α} {count : Nat} (moves : Moves plan state count moved)
      (unsettled : ¬moved.Settled count) (progress : moved.progress plan = .substantial)
      (records : moved.record = .ok recorded) (follows : further = true)
      (descends : Descends plan recorded next) :
      Step plan further state (.completed (next.complete (moved.modularity plan)))

/-- The iterations of a search, at most `left` of them, and their end. -/
inductive Run (plan : Plan σ α) : (left : Nat) → (state : State α) → Ending α → Prop
  | exhausted {state : State α} :
      Run plan 0 state
        { state, didConverge := false, terminalState := .maxIterationsReached, ofSeeds := none }
  | ended {left : Nat} {state : State α} {ending : Ending α}
      (step : Step plan (left != 0) state (.ended ending)) : Run plan (left + 1) state ending
  | completed {left : Nat} {state next : State α} {ending : Ending α}
      (step : Step plan (left != 0) state (.completed next)) (rest : Run plan left next ending) :
      Run plan (left + 1) state ending

/-- Of a property that completed iterations keep: it holds of the state with which a run ends or in
which its last iteration starts. -/
theorem Run.last {property : State α → Prop} (run : Run plan left state ending)
    (kept : ∀ {further state next}, property state → Step plan further state (.completed next) →
      property next) (holds : property state) :
    ∃ last, property last ∧
      (ending = ⟨last, false, .maxIterationsReached, none⟩ ∨
        ∃ further, Step plan further last (.ended ending)) := by
  induction run with
  | exhausted => exact ⟨_, holds, .inl rfl⟩
  | ended step => exact ⟨_, holds, .inr ⟨_, step⟩⟩
  | completed step _ ih => exact ih (kept holds step)

/-! ## What is tracked -/

structure Tracker.Tracks (tracker : Tracker α) : Prop where
  size : tracker.modularities.size = tracker.iteration
  latest : tracker.latest = tracker.modularities.back?.getD 0

theorem tracks_start : (Tracker.start : Tracker α).Tracks := ⟨rfl, rfl⟩

theorem Tracker.Tracks.complete {tracker : Tracker α} (tracks : tracker.Tracks) (modularity : α) :
    (tracker.complete modularity).Tracks := by
  constructor
  · simp [Tracker.complete, tracks.size]
  · simp [Tracker.complete]

theorem Moves.tracker_eq (moves : Moves plan state count moved) :
    moved.toTracker = state.toTracker := by
  cases moves with
  | intro => rfl

omit [Scalar α] in
theorem tracker_record (records : moved.record = .ok recorded) :
    recorded.toTracker = moved.toTracker := by
  unfold State.record at records
  cases written : moved.hierarchy.record moved.level.graph moved.level.assignment moved.seeding with
  | error failure =>
    rw [written] at records
    cases records
  | ok hierarchy =>
    rw [written] at records
    cases records
    rfl

theorem Descends.tracker_eq (descends : Descends plan state next) :
    next.toTracker = state.toTracker := by
  cases descends with
  | intro => rfl

def Outcome.after : Outcome α → State α
  | .ended ending => ending.state
  | .completed state => state

theorem Step.tracks (step : Step plan further state outcome) (tracks : state.Tracks) :
    outcome.after.Tracks := by
  have kept {moved recorded : State α} {count : Nat} (moves : Moves plan state count moved)
      (records : moved.record = .ok recorded) : recorded.Tracks := by
    rw [tracker_record records, moves.tracker_eq]
    exact tracks
  cases step with
  | settled moves => exact moves.tracker_eq ▸ tracks
  | decreased moves => exact moves.tracker_eq ▸ tracks
  | slight moves _ _ records => exact (kept moves records).complete _
  | last moves _ _ records => exact (kept moves records).complete _
  | descended moves _ _ records _ descends =>
    exact (descends.tracker_eq ▸ kept moves records).complete _

theorem Run.tracks (run : Run plan left state ending) (tracks : state.Tracks) :
    ending.state.Tracks := by
  induction run with
  | exhausted => exact tracks
  | ended step => exact step.tracks tracks
  | completed step _ ih => exact ih (step.tracks tracks)

/-! ## Nothing else happens -/

theorem moveNodes_gives {result : State α × Nat} (gives : (moveNodes plan state).Gives result) :
    Moves plan state result.2 result.1 := by
  obtain ⟨start, starts, gives⟩ := gives.stage.bind
  obtain ⟨-, -, gives⟩ := gives.bind
  obtain ⟨-, -, gives⟩ := gives.bind
  cases failure : (LocalMove.run (state.moveSetting plan)
      start).failure? with
  | some failure =>
    simp only [failure] at gives
    exact gives.of_throw.elim
  | none =>
    simp only [failure] at gives
    rw [gives.pure]
    exact .intro starts.of_mapError failure

theorem measure_gives {modularity : α} (gives : (measure plan state).Gives modularity) :
    modularity = state.modularity plan := by
  obtain ⟨-, -, gives⟩ := gives.stage.bind
  exact gives.pure

theorem descend_gives (gives : (descend plan state).Gives next) : Descends plan state next := by
  obtain ⟨⟨hierarchy, parts⟩, refines, gives⟩ := gives.bind
  obtain ⟨-, -, refines⟩ := refines.stage.bind
  obtain ⟨found, follows, refines⟩ := refines.bind
  cases refines.pure
  obtain ⟨-, -, gives⟩ := gives.stage.bind
  obtain ⟨-, -, gives⟩ := gives.bind
  rw [gives.pure]
  exact .intro follows.ofExcept

def State.measured (plan : Plan σ α) (moved : State α) (count : Nat) : Option α :=
  if moved.Measures count then some (moved.modularity plan) else none

theorem measured_of_settled (plan : Plan σ α) (settled : moved.Settled count) :
    moved.measured plan count =
      if moved.seeding.isSeeded ∧ moved.iteration = 0 then some (moved.modularity plan) else none := by
  simp [State.measured, State.Measures, settled]

theorem measured_of_unsettled (plan : Plan σ α) (unsettled : ¬moved.Settled count) :
    moved.measured plan count = some (moved.modularity plan) := if_pos (.inl unsettled)

theorem weigh_settled (plan : Plan σ α) (further : Bool) (settled : moved.Settled count) :
    weigh plan further (moved, count, moved.measured plan count) = do
      Session.report (.ends .iteration)
      return .ended
        { state := moved
          didConverge := true
          terminalState := .converged
          ofSeeds :=
            if moved.seeding.isSeeded ∧ moved.iteration = 0 then some (moved.modularity plan) else none } := by
  unfold weigh
  dsimp only
  rw [if_pos settled, measured_of_settled plan settled]

theorem weigh_unsettled (plan : Plan σ α) (further : Bool) (unsettled : ¬moved.Settled count) :
    weigh plan further (moved, count, moved.measured plan count) =
      match moved.progress plan with
      | .decreased => do
        Session.note (.decreased moved.iteration)
        Session.report (.ends .iteration)
        return .ended
          { state := moved, didConverge := false, terminalState := .toleranceExhausted, ofSeeds := none }
      | .slight => do
        let recorded ← Session.ofExcept moved.record
        Session.report (.ends .iteration)
        return .ended
          { state := recorded.complete (moved.modularity plan), didConverge := true
            terminalState := .converged, ofSeeds := none }
      | .substantial => Session.ofExcept moved.record >>= proceed plan further (moved.modularity plan) := by
  unfold weigh
  dsimp only
  rw [if_neg unsettled, measured_of_unsettled plan unsettled]
  rfl

theorem survey_gives {found : State α × Nat × Option α} (gives : (survey plan state).Gives found) :
    Moves plan state found.2.1 found.1 ∧ found.2.2 = found.1.measured plan found.2.1 := by
  obtain ⟨-, -, gives⟩ := gives.bind
  obtain ⟨⟨moved, count⟩, moves, gives⟩ := gives.bind
  obtain ⟨measured, measures, gives⟩ := gives.bind
  rw [gives.pure]
  refine ⟨moveNodes_gives moves, ?_⟩
  unfold measureNeeded at measures
  unfold State.measured
  by_cases needed : moved.Measures count
  · rw [if_pos needed] at measures ⊢
    obtain ⟨modularity, measuring, rfl⟩ := measures.map
    rw [measure_gives measuring]
  · rw [if_neg needed] at measures ⊢
    exact measures.pure

theorem proceed_gives {modularity : α} (gives : (proceed plan further modularity recorded).Gives outcome) :
    ∃ next, outcome = .completed (next.complete modularity) ∧
      (further = false ∧ next = recorded ∨ further = true ∧ Descends plan recorded next) := by
  obtain ⟨next, goes, gives⟩ := gives.bind
  obtain ⟨-, -, gives⟩ := gives.bind
  refine ⟨next, gives.pure, ?_⟩
  unfold descendFurther at goes
  cases further with
  | true => exact .inr ⟨rfl, descend_gives goes⟩
  | false => exact .inl ⟨rfl, goes.pure⟩

theorem conclude_gives (moves : Moves plan state count moved)
    (gives : (conclude plan further (moved, count, moved.measured plan count)).Gives outcome) :
    Step plan further state outcome := by
  obtain ⟨-, -, gives⟩ := gives.bind
  by_cases settled : moved.Settled count
  · rw [weigh_settled plan further settled] at gives
    obtain ⟨-, -, gives⟩ := gives.bind
    rw [gives.pure]
    exact .settled moves settled
  · rw [weigh_unsettled plan further settled] at gives
    cases progress : moved.progress plan with
    | decreased =>
      rw [progress] at gives
      obtain ⟨-, -, gives⟩ := gives.bind
      obtain ⟨-, -, gives⟩ := gives.bind
      rw [gives.pure]
      exact .decreased moves settled progress
    | slight =>
      rw [progress] at gives
      obtain ⟨recorded, records, gives⟩ := gives.bind
      obtain ⟨-, -, gives⟩ := gives.bind
      rw [gives.pure]
      exact .slight moves settled progress records.ofExcept
    | substantial =>
      rw [progress] at gives
      obtain ⟨recorded, records, gives⟩ := gives.bind
      obtain ⟨next, rfl, ⟨alone, rfl⟩ | ⟨follows, descends⟩⟩ := proceed_gives gives
      · exact .last moves settled progress records.ofExcept alone
      · exact .descended moves settled progress records.ofExcept follows descends

theorem step_gives (gives : (step plan further state).Gives outcome) :
    Step plan further state outcome := by
  rw [step_eq] at gives
  obtain ⟨⟨moved, count, measured⟩, surveys, gives⟩ := gives.bind
  obtain ⟨moves, found⟩ := survey_gives surveys
  dsimp only at moves found
  subst found
  exact conclude_gives moves gives

theorem iterate_gives (gives : (iterate plan left state).Gives ending) : Run plan left state ending := by
  induction left generalizing state with
  | zero =>
    rw [gives.pure]
    exact .exhausted
  | succ left ih =>
    obtain ⟨outcome, steps, gives⟩ := gives.bind
    cases outcome with
    | ended final =>
      rw [gives.pure]
      exact .ended (step_gives steps)
    | completed next => exact .completed (step_gives steps) (ih gives)

end Search

namespace Problem

variable {σ α : Type} [Scalar α]

def volumes (problem : Problem α) (assignment : Assignment) (additions : List Nat) : Volumes α :=
  .initial problem.graph assignment problem.config.countLoops problem.config.concurrency additions

/-- The scale does not depend on the order in which the volumes of communities are added up. -/
def scale (problem : Problem α) (assignment : Assignment) : Scale α :=
  .of problem.graph problem.config.countLoops (problem.volumes assignment []) problem.config.gamma

def begin (problem : Problem α) (assignment : Assignment) (seeding : Seeding) (additions : List Nat) :
    Search.State α where
  level := ⟨problem.graph, assignment, problem.volumes assignment additions, seeding.communityCount⟩
  seeding := seeding
  hierarchy := .start problem.graph.nodeCount problem.config.keepLevels
  toTracker := .start

def Reaches (problem : Problem α) (sampler : Sampler σ α) (ending : Search.Ending α) : Prop :=
  ∃ assignment seeding,
    Seeding.resolve (α := α) problem.graph.nodeCount problem.seeds = .ok (assignment, seeding) ∧
    Search.Run ⟨problem.config, problem.scale assignment, sampler⟩ problem.config.maxLevels
      (problem.begin assignment seeding sampler.schedule.additions) ending

variable {problem : Problem α}

theorem Reaches.tracks {sampler : Sampler σ α} {ending : Search.Ending α}
    (reaches : problem.Reaches sampler ending) : ending.state.Tracks := by
  obtain ⟨assignment, seeding, -, run⟩ := reaches
  exact run.tracks Search.tracks_start

variable {additions : List Nat}

theorem setUp_gives {start : Search.State α} {scale : Scale α}
    (gives : (problem.setUp additions).Gives (start, scale)) :
    ∃ assignment seeding,
      Seeding.resolve (α := α) problem.graph.nodeCount problem.seeds = .ok (assignment, seeding) ∧
      start = problem.begin assignment seeding additions ∧ scale = problem.scale assignment := by
  obtain ⟨⟨assignment, seeding⟩, resolves, gives⟩ := gives.stage.bind
  obtain ⟨-, -, gives⟩ := gives.bind
  cases gives.pure
  exact ⟨_, _, resolves.ofExcept, rfl, rfl⟩

theorem setUp_eq {assignment : Assignment} {seeding : Seeding}
    (resolved : Seeding.resolve (α := α) problem.graph.nodeCount problem.seeds =
      .ok (assignment, seeding)) :
    problem.setUp additions = Session.stage .initialization
      (Session.checkpoint problem.graph.nodeCount >>= fun _ =>
        pure (problem.begin assignment seeding additions, problem.scale assignment)) := by
  unfold setUp
  dsimp only
  rw [resolved]
  rfl

theorem run_ok {sampler : Sampler σ α} {watch : Watch α} {result : Result α}
    (ok : (problem.run sampler watch).1 = .ok result) :
    ∃ ending, problem.Reaches sampler ending ∧ result = ending.result problem.graph.nodeCount := by
  obtain ⟨⟨start, scale⟩, setsUp, gives⟩ := (Session.gives_of_run ok).bind
  obtain ⟨assignment, seeding, resolves, rfl, rfl⟩ := setUp_gives setsUp
  obtain ⟨ending, runs, gives⟩ := gives.bind
  obtain ⟨-, -, gives⟩ := gives.bind
  exact ⟨ending, ⟨_, _, resolves, Search.iterate_gives runs⟩, gives.pure⟩

end Problem

end CommunityDetection
