import CommunityDetection.Proofs.Search.History
import CommunityDetection.Proofs.Search.Limits
import CommunityDetection.Proofs.Search.Nesting
import CommunityDetection.Proofs.Search.OutputIds
import CommunityDetection.Proofs.Search.Retention

/-!
# The modularity of a result

In exact arithmetic, on a graph built from edges, the modularity of a result is that of its communities as
soon as an iteration was completed or seeds were returned. A search without seeds whose first iteration
moves nothing reports zero, whatever the modularity of the single nodes is (`modularity_eq_iff`).
-/

namespace CommunityDetection

namespace Search

section First

variable {σ α : Type} [Scalar α] {plan : Plan σ α} {limit : Nat} {state : State α} {ending : Ending α}

theorem Closes.settled_of_first (closes : Closes plan limit state ending)
    (fresh : state.modularities = #[]) (first : ending.state.iteration = 0) :
    ∃ count, Moves plan state count ending.state ∧ ending.state.Settled count ∧ ending.ofSeeds =
      if ending.state.seeding.isSeeded then some (ending.state.modularity plan) else none := by
  obtain ⟨-, count, moves, settled | decreased⟩ := closes.moves_of_first first
  · exact ⟨count, moves, settled⟩
  · obtain ⟨before, found, -⟩ := Progress.of_eq_decreased_iff.mp decreased
    rw [moves.sameRecords.modularities, fresh] at found
    cases found

end First

variable {σ K : Type} [Field K] [LinearOrder K] {G : Graph K} {volume : Nat → K} {state moved : State K}
  {plan : Plan σ K} {count : Nat}

theorem Moves.alone_of_settled (moves : Moves plan state count moved) (settled : moved.Settled count)
    (ready : moved.level.Ready)
    (alone : state.level.assignment = .singletons state.level.graph.nodeCount) :
    (Assignment.singletons state.level.graph.nodeCount).Alike state.level.graph.nodeCount
      moved.level.assignment := by
  rcases settled with still | full
  · obtain ⟨start, starts, rfl⟩ := moves.eq_of_still still
    have kept : start.assignment = state.level.assignment := (Level.moveStart_ok starts).1
    rw [← alone, ← kept]
    exact fun _ _ _ _ => Iff.rfl
  · obtain ⟨start, reached, starts, ⟨_, passed⟩, rfl⟩ := moves.passed
    have card : ((state.level.moved reached).assignment.used _).card = (Finset.range _).card :=
      ready.counts.symm.trans (full.trans (Finset.card_range _).symm)
    have distinct := Finset.card_image_iff.mp card
    intro u bound v bounded
    rw [Assignment.of_singletons bound, Assignment.of_singletons bounded]
    exact (distinct.eq_iff (Finset.mem_coe.mpr (Finset.mem_range.mpr bound))
      (Finset.mem_coe.mpr (Finset.mem_range.mpr bounded))).symm

theorem Ledger.latest {sequential : Prop} {scale : Scale K} {current : K}
    (ledger : Ledger sequential G volume scale state.modularities state.hierarchy current)
    (tracks : state.Tracks) (kept : state.hierarchy.keepAll = true) {level : Array Nat}
    (last : state.hierarchy.current? = some level) :
    level.size = G.nodeCount ∧ state.latest =
      scale.coefficient * quality G.nodeCount G.weight volume scale.gamma (Assignment.of level) := by
  rw [Hierarchy.current?, Array.back?_eq_getElem?] at last
  refine ⟨ledger.sized level (Array.mem_of_getElem? last), ?_⟩
  rw [tracks.latest, Array.back?_eq_getElem?, ← ledger.aligned kept, ledger.measured kept _ level last,
    Option.getD_some]

def State.outputs (state : State K) (n : Nat) : Array Nat :=
  ((List.range n).map fun node => state.seeding.outputId (state.level.assignment.of node)).toArray

theorem Balanced.alike_outputs (balanced : Balanced G volume state)
    (parts : ∀ v < G.nodeCount, state.part v = v) :
    Assignment.Alike G.nodeCount (state.outputs G.nodeCount) state.level.assignment := by
  have anchored := balanced.anchored
  have inside {w : Nat} (bound : w < G.nodeCount) : w < state.level.graph.nodeCount :=
    parts w bound ▸ anchored.part_lt bound
  intro u bound v bounded
  rw [State.outputs, Hierarchy.of_map_range _ bound, Hierarchy.of_map_range _ bounded]
  constructor
  · exact anchored.separates.injective anchored.formed.within (inside bound) (inside bounded)
  · exact congrArg state.seeding.outputId

theorem Balanced.modularity_outputs (balanced : Balanced G volume state)
    (parts : ∀ v < G.nodeCount, state.part v = v) :
    state.modularity plan = plan.scale.coefficient * quality G.nodeCount G.weight volume plan.scale.gamma
      (Assignment.of (state.outputs G.nodeCount)) := by
  rw [balanced.modularity_eq, balanced.quality_eq]
  refine congrArg _ (quality_congr fun u bound v bounded => ?_)
  rw [State.community, State.community, parts u bound, parts v bounded]
  exact (balanced.alike_outputs parts u bound v bounded).symm

end Search

namespace Problem

section Posing

variable {α : Type} [Scalar α] {G : Graph α} {config : Config α} {problem : Problem α}

omit [Scalar α] in
theorem unseeded_of_resolve {assignment : Assignment} {seeding : Seeding}
    (resolved : Seeding.resolve (α := α) problem.graph.nodeCount problem.seeds = .ok (assignment, seeding))
    (unseeded : seeding.isSeeded = false) :
    problem.seeds = none ∧ assignment = .singletons problem.graph.nodeCount := by
  cases given : problem.seeds with
  | none =>
    rw [given] at resolved
    cases resolved
    exact ⟨rfl, rfl⟩
  | some seeds =>
    rw [given] at resolved
    obtain ⟨offset, -, -, rfl⟩ := Seeding.resolve_some resolved
    cases unseeded

end Posing

variable {σ K : Type} [Field K] [LinearOrder K] {G : Graph K} {config : Config K} {problem : Problem K}
  {sampler : Sampler σ K} {watch : Watch K} {result : Result K} {ending : Search.Ending K}

/-- The modularity that a result reports is that of its communities. A result of no iterations has
every node alone, and reports zero. -/
structure Reports (problem : Problem K) (result : Result K) : Prop where
  size : result.communities.size = problem.graph.nodeCount
  measured : result.ranIterations ≠ 0 → result.modularity = (problem.scale #[]).coefficient *
    quality problem.graph.nodeCount problem.graph.weight problem.nodeVolume (problem.scale #[]).gamma
      (Assignment.of result.communities)
  unmeasured : result.ranIterations = 0 → problem.seeds = none ∧ result.modularity = 0 ∧
    (Assignment.singletons problem.graph.nodeCount).Alike problem.graph.nodeCount result.communities

/-- The communities of a search that completed no iteration are those after its first moves. Only those of
seeds were measured. -/
structure Unrecorded (problem : Problem K) (ending : Search.Ending K) : Prop where
  measured : ∀ modularity, ending.ofSeeds = some modularity →
    modularity = (problem.scale #[]).coefficient * quality problem.graph.nodeCount problem.graph.weight
      problem.nodeVolume (problem.scale #[]).gamma
      (Assignment.of (ending.state.outputs problem.graph.nodeCount))
  unmeasured : ending.ofSeeds = none → problem.seeds = none ∧
    (Assignment.singletons problem.graph.nodeCount).Alike problem.graph.nodeCount
      (ending.state.outputs problem.graph.nodeCount)

variable [IsStrictOrderedRing K]

theorem Reaches.unrecorded (given : G.FromEdges) (posed : Posed G config problem)
    (reaches : problem.Reaches sampler ending)
    (first : ending.ofSeeds ≠ none ∨ ending.state.iteration = 0) : problem.Unrecorded ending := by
  have fits := posed.fits
  obtain ⟨assignment, seeding, resolved, run⟩ := reaches
  obtain ⟨left, limit⟩ := fits.limit
  obtain ⟨last, merged, reached, closes⟩ := run.closes .start (limit ▸ Nat.succ_ne_zero left)
  have first : ending.state.iteration = 0 := first.elim closes.iteration_of_ofSeeds id
  cases reached.eq_start (closes.moves_of_first first).1
  obtain ⟨count, moves, settled, ofSeeds⟩ := closes.settled_of_first rfl first
  have balanced := (posed.balanced given resolved _).move moves
  have parts := (fits.anchored given.closed given.adjacent_comm given.edges.2.1 resolved sampler.schedule.additions).2
  have ready := ((fits.rooted_begin given.closed resolved _).move moves).ready
  have graph := fits.graph
  subst graph
  rw [← moves.part_eq] at parts
  have kept : ending.state.seeding = seeding := by
    obtain ⟨_, _, -, -, shape⟩ := moves.passed
    rw [shape]
    rfl
  rw [kept] at ofSeeds
  constructor
  · intro modularity found
    rw [ofSeeds] at found
    split at found
    · cases found
      rw [balanced.modularity_outputs parts, scale_congr problem #[] assignment]
    · cases found
  · intro none
    rw [ofSeeds] at none
    split at none
    · cases none
    · rename_i unseeded
      obtain ⟨seeds, alone⟩ := unseeded_of_resolve resolved (Bool.eq_false_of_not_eq_true unseeded)
      refine ⟨seeds, fun u bound v bounded => ?_⟩
      exact (moves.alone_of_settled settled ready alone u bound v bounded).trans
        (balanced.alike_outputs parts u bound v bounded).symm

theorem Reaches.reports (given : G.FromEdges) (posed : Posed G config problem) (lawful : sampler.Lawful)
    (reaches : problem.Reaches sampler ending) (kept : problem.config.keepLevels = true) :
    problem.Reports (ending.result problem.graph.nodeCount) := by
  have graph := posed.fits.graph
  subst graph
  have tracks := reaches.tracks
  have unrecorded := reaches.unrecorded given posed
  obtain ⟨-, current, ledger⟩ := reaches.ledger given posed lawful
  obtain ⟨_, _, -, chronicle⟩ := reaches.chronicle
  have keepsAll : ending.state.hierarchy.keepAll = true := by
    obtain ⟨_, _, -, run⟩ := reaches
    exact run.prefixes.keepAll.trans kept
  unfold Search.Ending.result
  cases seeds : ending.ofSeeds with
  | some modularity =>
    have measured := (unrecorded (.inl (by simp [seeds]))).measured modularity seeds
    exact ⟨by simp, fun _ => measured, nofun⟩
  | none =>
    cases last : ending.state.hierarchy.current? with
    | none =>
      have none := chronicle.fresh.mp last
      obtain ⟨unseeded, alone⟩ := (unrecorded (.inr none)).unmeasured seeds
      have zero : ending.state.latest = 0 := by
        rw [tracks.latest, Array.eq_empty_of_size_eq_zero (tracks.size.trans none)]
        rfl
      simp only [last, Option.getD_none]
      exact ⟨by simp, fun some => absurd none some, fun _ => ⟨unseeded, zero, alone⟩⟩
    | some level =>
      obtain ⟨size, measured⟩ := ledger.latest tracks keepsAll last
      have some : ending.state.iteration ≠ 0 := fun none => by
        rw [chronicle.fresh.mpr none] at last
        cases last
      simp only [last, Option.getD_some]
      exact ⟨size, fun _ => measured, fun none => absurd none some⟩

theorem reports_of_ok (given : G.FromEdges) (posed : Posed G config problem) (lawful : sampler.Lawful)
    (ok : (problem.run sampler watch).1 = .ok result) : problem.Reports result := by
  have reportsKept {kept : Result K} (ok : ((problem.keeping true).run sampler watch).1 = .ok kept) :
      problem.Reports kept := by
    obtain ⟨ending, reaches, rfl⟩ := run_ok ok
    have reports := reaches.reports given ((carries_keeping G config true).posed posed) lawful rfl
    exact ⟨reports.size, reports.measured, reports.unmeasured⟩
  cases levels : problem.config.keepLevels with
  | true =>
    have same : problem.keeping true = problem := by
      rw [keeping, Config.keeping, ← levels]
    exact reportsKept (same.symm ▸ ok)
  | false =>
    have same : problem.keeping false = problem := by
      rw [keeping, Config.keeping, ← levels]
    have dropped := (run_keeping problem sampler watch).1
    rw [same, ok] at dropped
    cases kept : ((problem.keeping true).run sampler watch).1 with
    | error failure =>
      rw [kept] at dropped
      cases dropped
    | ok found =>
      rw [kept] at dropped
      cases dropped
      have reports := reportsKept kept
      exact ⟨reports.size, reports.measured, reports.unmeasured⟩

/-- A result reports the modularity of its communities, measured on the graph itself, unless it is one of no
iterations: then no seeds were given and every node is alone, and what is reported is zero, which is right
only if the modularity of the single nodes is zero. -/
theorem modularity_eq_iff (given : G.FromEdges) (posed : Posed G config problem) (lawful : sampler.Lawful)
    (ok : (problem.run sampler watch).1 = .ok result) :
    result.communities.size = G.nodeCount ∧
    (∃ assignment : Assignment, assignment.Within G.nodeCount ∧
      assignment.Alike G.nodeCount result.communities) ∧
    (∀ assignment : Assignment, assignment.Within G.nodeCount →
      assignment.Alike G.nodeCount result.communities →
        (result.modularity = problem.modularityOf assignment ↔
          (result.ranIterations = 0 → problem.modularityOf (.singletons G.nodeCount) = 0))) ∧
    (result.ranIterations = 0 → problem.seeds = none ∧ result.modularity = 0 ∧
      (Assignment.singletons G.nodeCount).Alike G.nodeCount result.communities) := by
  have reports := reports_of_ok given posed lawful ok
  have graph := posed.fits.graph
  subst graph
  refine ⟨reports.size, Assignment.exists_alike _ _, fun assignment within alike => ?_,
    reports.unmeasured⟩
  by_cases none : result.ranIterations = 0
  · obtain ⟨-, zero, alone⟩ := reports.unmeasured none
    have same : problem.modularityOf assignment =
        problem.modularityOf (.singletons problem.graph.nodeCount) := by
      rw [modularityOf_eq given.closed within,
        modularityOf_eq given.closed (Assignment.within_singletons _), quality_congr alike,
        quality_congr alone]
    rw [zero, same]
    exact ⟨fun right _ => right.symm, fun right => (right none).symm⟩
  · refine iff_of_true ?_ fun first => absurd first none
    rw [reports.measured none, modularityOf_eq given.closed within, quality_congr alike]

def twoLoops : Problem ℚ where
  graph := ⟨.undirected, true, Graph.rowsOf 2 .undirected [⟨0, 0, 1⟩, ⟨1, 1, 1⟩], none, []⟩
  config := Config.standard
  seeds := none

/-- With the star all is as it should be, but the modularity of the two loops is a half, and zero is
reported. -/
theorem modularity_eq_iff_twoLoops :
    starResult.modularity = (star ℚ).modularityOf #[0, 1, 1, 0] ∧
      ∃ result, (twoLoops.run (Sampler.steady ℚ) fun _ => false).1 = .ok result ∧
        result.modularity = 0 ∧ result.communities = #[0, 1] ∧
        twoLoops.modularityOf #[0, 1] = 1 / 2 ∧ result.modularity ≠ twoLoops.modularityOf #[0, 1] := by
  constructor
  · obtain ⟨-, -, measured, -⟩ := modularity_eq_iff (fromEdges_star (by decide +kernel))
      (posed_star (by decide +kernel)) (Sampler.lawful_steady ℚ) run_star
    have nodes : (star ℚ).graph.nodeCount = 4 := by decide +kernel
    rw [nodes] at measured
    refine (measured #[0, 1, 1, 0] ⟨rfl, by decide⟩ ?_).mpr nofun
    unfold Assignment.Alike
    decide
  · have run : (twoLoops.run (Sampler.steady ℚ) fun _ => false).1 = .ok
        { communities := #[0, 1], ranIterations := 0, didConverge := true, terminalState := .converged
          dendrogram := none, modularities := [], modularity := 0 } := by
      decide +kernel
    have given : twoLoops.graph.FromEdges := Graph.fromEdges_of_sound (by decide +kernel)
    have posed : Posed twoLoops.graph twoLoops.config twoLoops :=
      posed_of_valid (by decide +kernel) rfl rfl rfl
    have nodes : twoLoops.graph.nodeCount = 2 := by decide +kernel
    have half : twoLoops.modularityOf #[0, 1] = 1 / 2 := by decide +kernel
    obtain ⟨-, -, measured, unmeasured⟩ := modularity_eq_iff given posed (Sampler.lawful_steady ℚ) run
    rw [nodes] at measured
    refine ⟨_, run, (unmeasured rfl).2.1, rfl, half, fun right => ?_⟩
    have zero : twoLoops.modularityOf #[0, 1] = 0 :=
      (measured #[0, 1] ⟨rfl, by decide⟩ fun _ _ _ _ => Iff.rfl).mp right rfl
    rw [half] at zero
    exact absurd zero (by norm_num)

end Problem

end CommunityDetection
