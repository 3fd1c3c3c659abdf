import CommunityDetection.Proofs.Progress.Matching
import CommunityDetection.Proofs.Search.Problem

/-!
# One worker or several

With concurrency one, or with at most `Span.leastSize` nodes, all nodes are one span, and a single worker
visits them in order (`Config.Alone`). As the levels of a search never have more nodes than its graph, it then
works alone all along, and no schedule matters to it.
-/

namespace CommunityDetection

variable {σ α : Type}

def Config.Alone (config : Config α) (n : Nat) : Prop := config.concurrency ≤ 1 ∨ n ≤ Span.leastSize

theorem Config.Alone.mono {config : Config α} {n m : Nat} (alone : config.Alone n) (fewer : m ≤ n) :
    config.Alone m := alone.imp_right fewer.trans

theorem Config.Alone.spans {config : Config α} {G : Graph α} (alone : config.Alone G.nodeCount) :
    G.spans config.concurrency = Span.even G.nodeCount 1 Span.leastSize := by
  rw [Graph.spans, Span.byDegree, Graph.length_degrees]
  exact if_pos alone

theorem Config.Alone.length_spans {config : Config α} {G : Graph α} (alone : config.Alone G.nodeCount) :
    (G.spans config.concurrency).length ≤ 1 := by
  rw [alone.spans]
  exact Span.length_even_le _ 1 _

theorem Config.Alone.added {config : Config α} {n : Nat} (alone : config.Alone n) (turns : List Nat) :
    Volumes.added n config.concurrency turns = List.range n := by
  refine Volumes.added_of_length_le ?_ turns
  exact alone.elim (fun one => (Span.length_even_le _ _ _).trans (by omega)) fun few => Span.length_even_le_one few _

def Sampler.under (sampler : Sampler σ α) (schedule : Schedule) : Sampler σ α := { sampler with schedule }

theorem Sampler.schedule_under (sampler : Sampler σ α) (schedule : Schedule) :
    (sampler.under schedule).schedule = schedule := rfl

theorem Sampler.Lawful.under {sampler : Sampler σ α} (lawful : sampler.Lawful) (schedule : Schedule) :
    (sampler.under schedule).Lawful := ⟨lawful.order_perm, lawful.choose_mem⟩

theorem Level.graph_moved (level : Level α) (state : LocalMove.State α) :
    (level.moved state).graph = level.graph := rfl

namespace Search

variable [Scalar α] {plan : Plan σ α} {further : Bool} {state next moved recorded : State α} {count n : Nat}

/-! ## Nodes of the levels -/

omit [Scalar α] in
theorem graph_record (records : moved.record = .ok recorded) : recorded.level.graph = moved.level.graph := by
  rw [record_ok records]

theorem Moves.graph_eq (moves : Moves plan state count moved) : moved.level.graph = state.level.graph := by
  cases moves with
  | intro => exact Level.graph_moved _ _

theorem Descends.nodeCount_le (descends : Descends plan state next) :
    next.level.graph.nodeCount ≤ state.level.graph.nodeCount := by
  have size : (refined plan state).parts.size = state.level.graph.nodeCount := by
    unfold refined Level.refine
    exact Refinement.size_parts_run _ _ _
  cases descends with
  | intro => exact (Coarsening.nodeCount_graph_le_size _ _ _).trans_eq size

theorem Step.nodeCount_le (step : Step plan further state (.completed next)) :
    next.level.graph.nodeCount ≤ state.level.graph.nodeCount := by
  cases step with
  | last moves _ _ records =>
    rw [← moves.graph_eq, ← graph_record records]
    exact le_rfl
  | descended moves _ _ records _ descends =>
    rw [← moves.graph_eq, ← graph_record records]
    exact descends.nodeCount_le

/-! ## The visits of a plan -/

/-- On levels with at most `n` nodes, no visits overlap. -/
def Plan.Sequential (plan : Plan σ α) (n : Nat) : Prop :=
  plan.config.Alone n ∨ plan.sampler.schedule.Sequential

/-- On levels with at most `n` nodes, the visits are made in the order of the nodes. -/
def Plan.InOrder (plan : Plan σ α) (n : Nat) : Prop :=
  plan.config.Alone n ∨ ∀ iteration pass, plan.sampler.schedule.turns iteration pass = []

omit [Scalar α] in
theorem Plan.Sequential.moveSetting (sequential : plan.Sequential n) (few : state.level.graph.nodeCount ≤ n) :
    (state.moveSetting plan).Sequential :=
  sequential.imp (fun alone => (alone.mono few).length_spans) fun whole => whole state.iteration

omit [Scalar α] in
theorem Plan.InOrder.moveSetting (inOrder : plan.InOrder n) (few : state.level.graph.nodeCount ≤ n) :
    (state.moveSetting plan).InOrder :=
  inOrder.imp (fun alone => (alone.mono few).length_spans) fun none => none state.iteration

/-! ## Plans that do the same -/

/-- On levels with at most `n` nodes, two plans do the same. -/
structure Plan.Agrees (plan other : Plan σ α) (n : Nat) : Prop where
  runs (state : State α) (start : LocalMove.State α) : state.level.graph.nodeCount ≤ n →
    LocalMove.run (state.moveSetting other) start = LocalMove.run (state.moveSetting plan) start
  modularity (state : State α) : state.level.graph.nodeCount ≤ n →
    state.modularity other = state.modularity plan
  refined (state : State α) : Search.refined other state = Search.refined plan state
  tolerance : other.config.tolerance = plan.config.tolerance

namespace Plan.Agrees

open Session

variable {other : Plan σ α}

theorem moveNodes_eq (agrees : plan.Agrees other n) (few : state.level.graph.nodeCount ≤ n) :
    moveNodes other state = moveNodes plan state := by
  unfold moveNodes
  simp only [agrees.runs _ _ few]

theorem measureNeeded_eq (agrees : plan.Agrees other n) (few : state.level.graph.nodeCount ≤ n) (count : Nat) :
    measureNeeded other state count = measureNeeded plan state count := by
  have measured : measure other state = measure plan state := by
    unfold measure
    rw [← State.modularity, ← State.modularity, agrees.modularity state few]
  rw [measureNeeded, measureNeeded, measured]

theorem survey_eq (agrees : plan.Agrees other n) (few : state.level.graph.nodeCount ≤ n) :
    survey other state = survey plan state := by
  refine (matches_bind_same fun _ _ => ?_).eq
  rw [agrees.moveNodes_eq few]
  refine matches_bind_same fun found moves => ?_
  obtain ⟨moved, count⟩ := found
  dsimp only
  rw [agrees.measureNeeded_eq ((congrArg Graph.nodeCount (moveNodes_gives moves).graph_eq).trans_le few)]
  exact .refl _

theorem conclude_eq (agrees : plan.Agrees other n) (further : Bool) (found : State α × Nat × Option α) :
    conclude other further found = conclude plan further found := by
  have descends (state : State α) : descend other state = descend plan state := by
    unfold descend
    rw [refine_eq, refine_eq, agrees.refined]
  obtain ⟨moved, count, measured⟩ := found
  simp only [conclude, weigh, proceed, descendFurther, descends, agrees.tolerance]

theorem iterate_eq (agrees : plan.Agrees other n) (few : state.level.graph.nodeCount ≤ n) (limit : Nat) :
    iterate other limit state = iterate plan limit state := by
  induction limit generalizing state with
  | zero => rfl
  | succ limit ih =>
    have steps : step other (limit != 0) state = step plan (limit != 0) state := by
      rw [step_eq, step_eq, agrees.survey_eq few]
      exact bind_congr fun found => agrees.conclude_eq _ found
    unfold iterate
    rw [steps]
    refine (matches_bind_same fun outcome gives => ?_).eq
    cases outcome with
    | ended ending => exact matches_pure rfl
    | completed next =>
      dsimp only
      rw [ih ((step_gives gives).nodeCount_le.trans few)]
      exact .refl _

end Plan.Agrees

end Search

/-! ## One worker under any schedule -/

variable [Scalar α]

theorem Refinement.run_under (setting : Refinement.Setting α) (sampler : Sampler σ α) (schedule : Schedule) :
    run setting (sampler.under schedule) = run setting sampler := rfl

theorem Search.Plan.agrees_under (plan : Plan σ α) {n : Nat} (alone : plan.config.Alone n) (schedule : Schedule) :
    plan.Agrees { plan with sampler := plan.sampler.under schedule } n where
  runs state start few := by
    have setting : state.moveSetting { plan with sampler := plan.sampler.under schedule } =
        { state.moveSetting plan with turns := schedule.turns state.iteration } := rfl
    rw [setting]
    exact LocalMove.run_alone (alone.mono few).length_spans _ start
  modularity _ _ := rfl
  refined state := congrArg (fun run => (run (plan.sampler.start state.iteration)).1)
    (Refinement.run_under _ plan.sampler schedule)
  tolerance := rfl

namespace Problem

open Session

variable {problem : Problem α} {sampler : Sampler σ α}

theorem setUp_of_alone (alone : problem.config.Alone problem.graph.nodeCount) (additions other : List Nat) :
    problem.setUp additions = problem.setUp other := by
  have volumes (assignment : Assignment) :
      Volumes.initial problem.graph assignment problem.config.countLoops problem.config.concurrency additions =
        .initial problem.graph assignment problem.config.countLoops problem.config.concurrency other := by
    rw [Volumes.initial_eq, Volumes.initial_eq, alone.added, alone.added]
  simp only [setUp, volumes]

theorem solve_under (alone : problem.config.Alone problem.graph.nodeCount) (schedule : Schedule) :
    problem.solve (sampler.under schedule) = problem.solve sampler := by
  unfold solve
  rw [setUp_of_alone alone _ sampler.schedule.additions]
  refine (matches_bind_same fun begun sets => ?_).eq
  obtain ⟨start, scale⟩ := begun
  obtain ⟨assignment, seeding, -, rfl, rfl⟩ := setUp_gives sets
  have agrees := Search.Plan.agrees_under ⟨problem.config, problem.scale assignment, sampler⟩ alone schedule
  dsimp only
  rw [agrees.iterate_eq le_rfl]
  exact .refl _

/-- The schedule does not matter to a single worker. -/
theorem run_under {schedule : Schedule}
    (schedules : problem.config.Alone problem.graph.nodeCount ∨ schedule = sampler.schedule) (watch : Watch α) :
    problem.run (sampler.under schedule) watch = problem.run sampler watch := by
  rcases schedules with alone | rfl
  · rw [run, run, solve_under alone]
  · rfl

end Problem

end CommunityDetection
