import CommunityDetection.Proofs.Modularity
import CommunityDetection.Proofs.Refinement.Cuts
import CommunityDetection.Proofs.Search.Likeness
import CommunityDetection.Proofs.Search.Workers

/-!
# Searches with another concurrency

The concurrency decides into which spans the nodes are cut, and so between how many workers the schedule takes
turns. A graph with at most `Span.leastSize` nodes is one span, so its searches depend neither on the concurrency
nor on the schedule. Over larger graphs local moves depend on both. The other phases do not in exact arithmetic:
their workers share sums only, which come out the same in any order (`concurrency_immaterial`).
-/

namespace CommunityDetection

variable {σ α : Type}

def Config.cutting (config : Config α) (concurrency : Nat) : Config α := { config with concurrency }

def Search.Plan.cutting (plan : Search.Plan σ α) (concurrency : Nat) : Search.Plan σ α :=
  { plan with config := plan.config.cutting concurrency }

def Problem.cutting (problem : Problem α) (concurrency : Nat) : Problem α :=
  { problem with config := problem.config.cutting concurrency }

variable [Scalar α]

/-! ## Phases -/

theorem LocalMove.run_cutting {setting : LocalMove.Setting α} (few : setting.graph.nodeCount ≤ Span.leastSize)
    (concurrency : Nat) (state : LocalMove.State α) :
    run { setting with concurrency } state = run setting state := by
  apply run_congr
  · rfl
  · rfl
  · intro pass active state
    refine sweep_congr ?_ (by rfl) (by rfl) _ _ _
    exact (Graph.spans_of_le few _).trans (Graph.spans_of_le few _).symm

theorem Refinement.run_cutting (setting : Refinement.Setting α) (concurrency : Nat) (sampler : Sampler σ α) :
    run { setting with concurrency } sampler = run setting sampler := by
  unfold run
  rw [innerWeights_eq, innerWeights_eq]
  rfl

theorem Graph.modularity_cutting_of_le {G : Graph α} (few : G.nodeCount ≤ Span.leastSize)
    (assignment : Assignment) (volumes : Cells α) (gamma coefficient : α) (concurrency other : Nat) :
    G.modularity assignment volumes gamma coefficient concurrency =
      G.modularity assignment volumes gamma coefficient other := by
  unfold modularity
  rw [spans_of_le few, spans_of_le few]

/-! ## Searches over few nodes -/

theorem Search.Plan.agrees_cutting (plan : Plan σ α) (concurrency : Nat) :
    plan.Agrees (plan.cutting concurrency) Span.leastSize where
  runs state start few := by
    have setting : state.moveSetting (plan.cutting concurrency) =
        { state.moveSetting plan with concurrency } := rfl
    rw [setting]
    exact LocalMove.run_cutting few concurrency start
  modularity _ few := Graph.modularity_cutting_of_le few _ _ _ _ _ _
  refined state := congrArg (fun run => (run (plan.sampler.start state.iteration)).1)
    (Refinement.run_cutting (Refinement.Setting.mk state.level.graph state.level.assignment
      state.level.volumes.nodes state.level.volumes.communities plan.scale.gamma plan.config.concurrency)
      concurrency plan.sampler)
  tolerance := rfl

namespace Problem

open Session

variable {problem : Problem α}

theorem setUp_cutting (few : problem.graph.nodeCount ≤ Span.leastSize) (concurrency : Nat) (additions : List Nat) :
    (problem.cutting concurrency).setUp additions = problem.setUp additions := by
  have added (concurrency : Nat) :
      Volumes.added problem.graph.nodeCount concurrency additions = List.range problem.graph.nodeCount :=
    Volumes.added_of_length_le (Span.length_even_le_one few concurrency) additions
  have volumes (assignment : Assignment) :
      Volumes.initial problem.graph assignment problem.config.countLoops concurrency additions =
        .initial problem.graph assignment problem.config.countLoops problem.config.concurrency additions := by
    rw [Volumes.initial_eq, Volumes.initial_eq, added, added]
  simp only [setUp, cutting, Config.cutting, volumes]

theorem run_cutting (few : problem.graph.nodeCount ≤ Span.leastSize) (concurrency : Nat)
    (sampler : Sampler σ α) (schedule : Schedule) (watch : Watch α) :
    (problem.cutting concurrency).run (sampler.under schedule) watch = problem.run sampler watch := by
  have alone : (problem.cutting concurrency).config.Alone (problem.cutting concurrency).graph.nodeCount := .inr few
  rw [run_under (.inl alone), run, run]
  congr 1
  unfold solve
  rw [setUp_cutting few]
  refine (matches_bind_same fun begun sets => ?_).eq
  obtain ⟨start, scale⟩ := begun
  obtain ⟨assignment, seeding, -, rfl, rfl⟩ := setUp_gives sets
  have agrees := Search.Plan.agrees_cutting ⟨problem.config, problem.scale assignment, sampler⟩ concurrency
  have fewNodes : (problem.begin assignment seeding sampler.schedule.additions).level.graph.nodeCount ≤
      Span.leastSize := few
  have iterates : Search.iterate ⟨(problem.cutting concurrency).config, problem.scale assignment, sampler⟩
      (problem.cutting concurrency).config.maxLevels (problem.begin assignment seeding sampler.schedule.additions) =
        Search.iterate ⟨problem.config, problem.scale assignment, sampler⟩ problem.config.maxLevels _ :=
    agrees.iterate_eq fewNodes _
  dsimp only
  rw [iterates]
  exact .refl _

theorem carries_cutting (G : Graph α) {config : Config α} {concurrency : Nat}
    (positive : 0 < config.concurrency) (other : 0 < concurrency) :
    Carries (cutting · concurrency) G G config (config.cutting concurrency) := by
  refine ⟨fun _ => rfl, ?_, rfl, rfl, rfl, rfl⟩
  have accepted : ¬config.concurrency < 1 := Nat.not_lt.mpr positive
  have acceptedOther : ¬concurrency < 1 := Nat.not_lt.mpr other
  simp only [Config.fault?, Config.cutting, accepted, acceptedOther, if_false]

theorem pose_cutting (G : Graph α) {config : Config α} {concurrency : Nat}
    (positive : 0 < config.concurrency) (other : 0 < concurrency) :
    Problem.pose G (config.cutting concurrency) = (Problem.pose G config).map (cutting · concurrency) :=
  (carries_cutting G positive other).pose

omit [Scalar α] in
theorem withSeeds_cutting (problem : Problem α) (seeds : Array (Option Nat)) (concurrency : Nat) :
    (problem.cutting concurrency).withSeeds seeds =
      (problem.withSeeds seeds).map (cutting · concurrency) :=
  withSeeds_map (cutting · concurrency) rfl (fun _ => rfl) seeds

theorem findCommunities_cutting {G : Graph Float} (few : G.nodeCount ≤ Span.leastSize)
    {config : Config Float} {concurrency : Nat} (positive : 0 < config.concurrency)
    (other : 0 < concurrency) (entropy : BitVec 64) (first second : Schedule) :
    findCommunities G (config.cutting concurrency) entropy first = findCommunities G config entropy second := by
  have poses := pose_cutting G positive other
  cases posed : Problem.pose G config with
  | error fault =>
    rw [posed] at poses
    rw [findCommunities_error posed, findCommunities_error poses]
  | ok problem =>
    rw [posed] at poses
    obtain ⟨-, -, graph, -⟩ := pose_ok posed
    have sampler : (problem.cutting concurrency).sampler entropy first =
        (problem.sampler entropy second).under first := rfl
    rw [findCommunities_ok posed, findCommunities_ok poses, sampler, run_cutting (graph ▸ few)]

/-- Whatever the concurrency and the schedule, a graph with at most a thousand nodes has the same communities, and
its searches write the same journals. In exact arithmetic the phases that add up over spans give the same over
any graph: the volumes and their coefficient, whatever turns the workers take and in whatever order the nodes add
to their communities, the modularity and the refined parts. -/
theorem concurrency_immaterial :
    (∀ (G : Graph Float) (config : Config Float) concurrency entropy first second, G.nodeCount ≤ 1000 →
      0 < config.concurrency → 0 < concurrency →
      findCommunities G (config.cutting concurrency) entropy first =
        findCommunities G config entropy second) ∧
    (∀ (α : Type) [Scalar α] concurrency, 0 < concurrency →
      (∀ (G : Graph α) (config : Config α), 0 < config.concurrency →
        Problem.pose G (config.cutting concurrency) =
          (Problem.pose G config).map (cutting · concurrency)) ∧
      ∀ problem : Problem α,
        (∀ seeds, (problem.cutting concurrency).withSeeds seeds =
          (problem.withSeeds seeds).map (cutting · concurrency)) ∧
        (problem.graph.nodeCount ≤ 1000 →
          ∀ (σ : Type) (sampler : Sampler σ α) (schedule : Schedule) (watch : Watch α),
            (problem.cutting concurrency).run (sampler.under schedule) watch = problem.run sampler watch)) ∧
    ∀ (K : Type) [Field K] [LinearOrder K] (concurrency other : Nat),
      (∀ (G : Graph K) (assignment : Assignment),
        (∀ countLoops turns others,
          let volumes := Volumes.initial G assignment countLoops concurrency turns
          volumes = .initial G assignment countLoops other others ∧
          volumes.coefficient G countLoops =
            (Volumes.initial G assignment countLoops other others).coefficient G countLoops ∧
          ∀ order, order.Perm (List.range G.nodeCount) →
            Volumes.gather assignment volumes.nodes (Cells.zeros G.nodeCount) order =
              volumes.communities) ∧
        ∀ volumes gamma coefficient, G.modularity assignment volumes gamma coefficient concurrency =
          G.modularity assignment volumes gamma coefficient other) ∧
      ∀ (setting : Refinement.Setting K) (σ : Type) (sampler : Sampler σ K),
        Refinement.run { setting with concurrency } sampler =
          Refinement.run { setting with concurrency := other } sampler := by
  refine ⟨fun G config concurrency entropy first second few positive other =>
      findCommunities_cutting few positive other entropy first second,
    fun α _ concurrency other => ⟨fun G config positive => pose_cutting G positive other, fun problem =>
      ⟨fun seeds => withSeeds_cutting problem seeds concurrency, fun few σ sampler schedule watch =>
        run_cutting few concurrency sampler schedule watch⟩⟩,
    fun K _ _ concurrency other => ⟨fun G assignment => ⟨fun countLoops turns others => ?_,
      fun volumes gamma coefficient => ?_⟩, fun setting σ sampler => ?_⟩⟩
  · have same : Volumes.initial G assignment countLoops concurrency turns =
        .initial G assignment countLoops other others := by
      rw [Volumes.initial_turns, Volumes.initial_turns G assignment countLoops other]
    refine ⟨same, by rw [same], fun order perm => ?_⟩
    rw [Volumes.initial_eq]
    exact Volumes.gather_perm assignment _ _ (perm.trans (Volumes.added_perm _ _ _).symm)
  · unfold Graph.modularity
    rw [Graph.sum_spans, Graph.sum_spans]
  · exact (Refinement.run_cutting setting concurrency sampler).trans
      (Refinement.run_cutting setting other sampler).symm

theorem concurrency_immaterial_star :
    findCommunities (star Float).graph ((star Float).config.cutting 1) 0 =
        findCommunities (star Float).graph (star Float).config 0 ∧
      (((star ℚ).cutting 1).run ((Sampler.steady ℚ).under ⟨[1, 0], fun _ _ => [.access 1, .visit 0]⟩)
        fun _ => false).1 = .ok starResult ∧
      let volumes := Volumes.initial (star ℚ).graph #[3, 0, 0, 3] true 4 [1]
      Volumes.gather #[3, 0, 0, 3] volumes.nodes (.zeros 4) [3, 1, 2, 0] = volumes.communities := by
  obtain ⟨finds, poses, exact⟩ := concurrency_immaterial
  have nodes (α : Type) [Scalar α] : (star α).graph.nodeCount = 4 := Graph.size_rowsOf _ _ _
  obtain ⟨-, searches⟩ := poses ℚ 1 Nat.one_pos
  obtain ⟨volumes, -⟩ := (exact ℚ 4 1).1 (star ℚ).graph #[3, 0, 0, 3]
  refine ⟨finds _ _ 1 0 {} {} (by rw [nodes]; decide) (by decide) Nat.one_pos, ?_, ?_⟩
  · rw [(searches (star ℚ)).2 (by rw [nodes]; decide)]
    exact run_star
  · have gathered := (volumes true [1] []).2.2 [3, 1, 2, 0]
    rw [nodes] at gathered
    exact gathered (by decide)

end Problem

end CommunityDetection
