import CommunityDetection.Proofs.Bounds
import CommunityDetection.Proofs.Search.History

/-!
# The scale of modularity

In exact arithmetic every modularity of a search is that of some partition of the root graph, so the
bounds on those hold of all of them. No modularity is below minus one, and none is more than one away from
the share of the loops that volumes leave out (`modularities_on_scale`).
-/

namespace CommunityDetection

namespace Search

section Records

variable {σ α : Type} [Scalar α] {plan : Plan σ α} {further : Bool} {state : State α}
  {outcome : Outcome α} {ending : Ending α}

theorem Step.measured (step : Step plan further state outcome) {modularity : α}
    (member : modularity ∈ outcome.after.modularities) :
    modularity ∈ state.modularities ∨ ∃ count moved, Moves plan state count moved ∧
      modularity = moved.modularity plan := by
  have pushed {count : Nat} {moved recorded : State α} (moves : Moves plan state count moved)
      (records : moved.record = .ok recorded)
      (member : modularity ∈ recorded.modularities.push (moved.modularity plan)) :
      modularity ∈ state.modularities ∨ ∃ count moved, Moves plan state count moved ∧
        modularity = moved.modularity plan := by
    rw [tracker_record records, moves.tracker_eq] at member
    exact (Array.mem_push.mp member).imp_right fun last => ⟨count, moved, moves, last⟩
  cases step with
  | settled moves => exact .inl (moves.tracker_eq ▸ member)
  | decreased moves => exact .inl (moves.tracker_eq ▸ member)
  | slight moves _ _ records => exact pushed moves records member
  | last moves _ _ records => exact pushed moves records member
  | descended moves _ _ records _ descends =>
    refine pushed moves records ?_
    rw [← descends.tracker_eq]
    exact member

theorem Step.measured_ofSeeds (step : Step plan further state (.ended ending)) {modularity : α}
    (seeds : ending.ofSeeds = some modularity) :
    ∃ count moved, Moves plan state count moved ∧ modularity = moved.modularity plan := by
  cases step with
  | settled moves =>
    dsimp only at seeds
    split at seeds
    · cases seeds
      exact ⟨_, _, moves, rfl⟩
    · cases seeds
  | decreased => cases seeds
  | slight => cases seeds

end Records

variable {σ K : Type} [Field K] [LinearOrder K] {G : Graph K}
  {volume : Nat → K} {plan : Plan σ K} {further : Bool} {left : Nat} {state next : State K}
  {ending : Ending K}

def Appraises (G : Graph K) (volume : Nat → K) (scale : Scale K) (modularity : K) : Prop :=
  ∃ community : Nat → Nat, modularity =
    scale.coefficient * quality G.nodeCount G.weight volume scale.gamma community

theorem Balanced.appraises (balanced : Balanced G volume state) (plan : Plan σ K) :
    Appraises G volume plan.scale (state.modularity plan) :=
  ⟨state.community, by rw [balanced.modularity_eq, balanced.quality_eq]⟩

structure Appraised (G : Graph K) (volume : Nat → K) (scale : Scale K) (state : State K) : Prop where
  balanced : Balanced G volume state
  modularities : ∀ modularity ∈ state.modularities, Appraises G volume scale modularity

variable [IsStrictOrderedRing K]

theorem Appraised.modularities_after {outcome : Outcome K}
    (appraised : Appraised G volume plan.scale state) (step : Step plan further state outcome) :
    ∀ modularity ∈ outcome.after.modularities, Appraises G volume plan.scale modularity := by
  intro modularity member
  rcases step.measured member with earlier | ⟨count, moved, moves, rfl⟩
  · exact appraised.modularities modularity earlier
  · exact (appraised.balanced.move moves).appraises plan

theorem Appraised.step (appraised : Appraised G volume plan.scale state) (closed : G.Closed)
    (lawful : plan.sampler.Lawful) (step : Step plan further state (.completed next)) :
    Appraised G volume plan.scale next :=
  ⟨step.balanced closed lawful appraised.balanced, appraised.modularities_after step⟩

theorem Appraised.result (appraised : Appraised G volume plan.scale state)
    (step : Step plan further state (.ended ending)) (n : Nat) :
    ∀ modularity ∈ (ending.result n).modularities, Appraises G volume plan.scale modularity := by
  unfold Ending.result
  cases seeds : ending.ofSeeds with
  | some found =>
    intro modularity member
    obtain ⟨count, moved, moves, rfl⟩ := step.measured_ofSeeds seeds
    rw [List.mem_singleton.mp member]
    exact (appraised.balanced.move moves).appraises plan
  | none =>
    intro modularity member
    exact appraised.modularities_after step modularity (Array.mem_toList_iff.mp member)

end Search

namespace Problem

variable {σ K : Type} [Field K] [LinearOrder K] [IsStrictOrderedRing K] {G : Graph K} {config : Config K}
  {problem : Problem K} {sampler : Sampler σ K} {watch : Watch K} {result : Result K}
  {ending : Search.Ending K}

theorem Reaches.appraises (given : G.FromEdges) (posed : Posed G config problem)
    (lawful : sampler.Lawful) (reaches : problem.Reaches sampler ending) (n : Nat) :
    ∀ modularity ∈ (ending.result n).modularities,
      Search.Appraises G problem.nodeVolume (problem.scale #[]) modularity := by
  obtain ⟨assignment, seeding, resolved, run⟩ := reaches
  have start : Search.Appraised G problem.nodeVolume (problem.scale assignment)
      (problem.begin assignment seeding sampler.schedule.additions) :=
    ⟨posed.balanced given resolved _, fun _ member => absurd member (Array.not_mem_empty _)⟩
  rw [scale_congr problem #[] assignment]
  obtain ⟨last, appraised, rfl | ⟨further, step⟩⟩ := run.last
    (fun holds step => holds.step given.closed lawful step) start
  · exact fun modularity member => appraised.modularities modularity (Array.mem_toList_iff.mp member)
  · exact appraised.result step n

def uncounted (problem : Problem K) : K :=
  (problem.scale #[]).coefficient * problem.graph.uncounted problem.config.countLoops

theorem Reaches.modularity_bounds (given : G.FromEdges) (posed : Posed G config problem)
    (lawful : sampler.Lawful) (reaches : problem.Reaches sampler ending) (n : Nat) :
    ∀ modularity ∈ (ending.result n).modularities,
      -config.gamma ≤ modularity - problem.uncounted ∧ modularity - problem.uncounted ≤ 1 := by
  intro modularity member
  obtain ⟨community, rfl⟩ := reaches.appraises given posed lawful n modularity member
  have graph := posed.fits.graph
  have configured := posed.fits.config
  subst graph configured
  have volumes : ∀ v < problem.graph.nodeCount,
      problem.nodeVolume v = problem.graph.volume problem.config.countLoops v :=
    fun v bound => Volumes.read_nodes_initial _ _ _ _ _ bound
  have normal : (problem.scale #[]).coefficient *
      ∑ v ∈ Finset.range problem.graph.nodeCount, problem.nodeVolume v ≤ 1 := by
    rw [Finset.sum_congr rfl fun v inV => volumes v (Finset.mem_range.mp inV)]
    exact Volumes.coefficient_mul_total_le _ _ _ _ _
  exact given.modularity_bounds volumes (Volumes.coefficient_pos _ _ _) normal
    posed.fits.gamma_pos.le community

/-- Modularities stay on the scale from minus one to one, but for the loops that volumes leave out: what
these add to each modularity may carry it above one. -/
theorem modularities_on_scale (given : G.FromEdges) (posed : Posed G config problem)
    (lawful : sampler.Lawful) (low : config.gamma ≤ 1) (ok : (problem.run sampler watch).1 = .ok result) :
    ∀ modularity ∈ result.modularities,
      -1 ≤ modularity ∧ |modularity - problem.uncounted| ≤ 1 ∧
        (config.countLoops = true ∨ (∀ v, ¬G.Adjacent v v) → |modularity| ≤ 1) := by
  obtain ⟨ending, reaches, rfl⟩ := run_ok ok
  intro modularity member
  obtain ⟨least, most⟩ := reaches.modularity_bounds given posed lawful _ modularity member
  have graph := posed.fits.graph
  have configured := posed.fits.config
  subst graph configured
  have nonneg : 0 ≤ problem.uncounted :=
    mul_nonneg (Volumes.coefficient_pos _ _ _).le (given.uncounted_nonneg _)
  have near : |modularity - problem.uncounted| ≤ 1 :=
    abs_le.mpr ⟨(neg_le_neg low).trans least, most⟩
  refine ⟨?_, near, fun none => ?_⟩
  · linarith [(abs_le.mp near).1]
  · have zero : problem.uncounted = 0 := by
      rw [uncounted, Graph.uncounted_eq_zero none, mul_zero]
    rwa [zero, sub_zero] at near

def looped : Problem ℚ where
  graph := ⟨.undirected, true, Graph.rowsOf 2 .undirected [⟨0, 1, 1⟩, ⟨0, 0, 100⟩], none, []⟩
  config := { (Config.standard : Config ℚ) with keepLevels := true, countLoops := false }
  seeds := none

def loopedResult : Result ℚ where
  communities := #[0, 0]
  ranIterations := 1
  didConverge := true
  terminalState := .converged
  dendrogram := some ⟨#[#[0, 0]]⟩
  modularities := [50]
  modularity := 50

theorem run_looped : (looped.run (Sampler.steady ℚ) fun _ => false).1 = .ok loopedResult := by
  decide +kernel

theorem modularities_on_scale_looped :
    ∃ result modularity, (looped.run (Sampler.steady ℚ) fun _ => false).1 = .ok result ∧
      modularity ∈ result.modularities ∧ -1 ≤ modularity ∧ |modularity - looped.uncounted| ≤ 1 ∧
      looped.uncounted = 50 ∧ 1 < modularity := by
  have given : looped.graph.FromEdges := Graph.fromEdges_of_sound (by decide +kernel)
  have posed : Posed looped.graph looped.config looped :=
    posed_of_valid (by decide +kernel) rfl rfl rfl
  have member : (50 : ℚ) ∈ [(50 : ℚ)] := List.mem_singleton_self 50
  obtain ⟨least, near, -⟩ := modularities_on_scale given posed (Sampler.lawful_steady ℚ) le_rfl
    run_looped 50 member
  exact ⟨_, 50, run_looped, member, least, near, by decide +kernel, by norm_num⟩

end Problem

end CommunityDetection
