import CommunityDetection.Proofs.Search.Crowd

/-!
# The history of modularities

In exact arithmetic, on a graph built from edges,

* `modularities_of_levels`: each modularity of a result is that of the level recorded with it, computed
  from the graph that was searched and from volumes that are summed anew;
* `modularities_increase`: where no visits overlap, as with a single worker, the modularities grow strictly,
  and no search stops because modularity decreased.

Both hold from any seeds and whatever a lawful sampler draws, the first also under any schedule. Where visits
do overlap, modularity may decrease (`crowd`).
-/

namespace CommunityDetection.Problem

variable {σ K : Type} [Field K] [LinearOrder K] {G : Graph K} {config : Config K} {problem : Problem K}
  {sampler : Sampler σ K} {watch : Watch K} {result : Result K} {ending : Search.Ending K}
  {additions : List Nat}

theorem scale_congr (problem : Problem K) (left right : Assignment) :
    problem.scale left = problem.scale right := by
  have same : (problem.volumes left []).nodes = (problem.volumes right []).nodes := by
    simp only [volumes, Volumes.initial_eq]
  simp only [scale, Scale.of, Volumes.coefficient_congr same]

/-- The modularity of an assignment of the nodes of a problem, with volumes that are summed anew. -/
def modularityOf (problem : Problem K) (assignment : Assignment) : K :=
  problem.graph.modularity assignment (problem.volumes assignment []).communities
    (problem.scale assignment).gamma (problem.scale assignment).coefficient problem.config.concurrency

def nodeVolume (problem : Problem K) : Nat → K := (problem.volumes #[] []).nodes.read

theorem read_nodes_volumes (problem : Problem K) (assignment : Assignment) (additions : List Nat) :
    (problem.volumes assignment additions).nodes.read = problem.nodeVolume := by
  simp only [nodeVolume, volumes, Volumes.initial_eq]

theorem modularityOf_eq (closed : problem.graph.Closed) {assignment : Assignment}
    (within : assignment.Within problem.graph.nodeCount) :
    problem.modularityOf assignment = (problem.scale #[]).coefficient *
      quality problem.graph.nodeCount problem.graph.weight problem.nodeVolume (problem.scale #[]).gamma
        assignment.of := by
  have sound : (problem.volumes assignment []).Sound assignment problem.graph.nodeCount :=
    Volumes.sound_initial _ _ _ _ within.bounded
  rw [modularityOf, Graph.modularity_eq_quality closed sound within.bounded, read_nodes_volumes,
    scale_congr problem assignment #[]]

theorem Posed.balanced_of_symmetric (posed : Posed G config problem) {assignment : Assignment}
    {seeding : Seeding} (resolved : Seeding.resolve (α := K) problem.graph.nodeCount problem.seeds =
      .ok (assignment, seeding)) (closed : G.Closed) (comm : ∀ {u v}, G.Adjacent u v → G.Adjacent v u)
    (symmetric : G.Symmetric) (untranslated : G.translation = none) (additions : List Nat) :
    Search.Balanced G problem.nodeVolume (problem.begin assignment seeding additions) := by
  obtain ⟨anchored, parts⟩ := posed.fits.anchored closed comm untranslated resolved additions
  obtain ⟨within, -⟩ := posed.fits.within resolved
  have graph := posed.fits.graph
  subst graph
  refine ⟨anchored, ⟨symmetric, Volumes.sound_initial _ _ _ _ within.bounded⟩, ?_⟩
  have merges := (Merges.refl problem.graph.nodeCount problem.graph.weight problem.nodeVolume).congr
    fun v bound => (parts v bound).symm
  rw [← read_nodes_volumes problem assignment additions] at merges ⊢
  exact merges

theorem Posed.balanced (given : G.FromEdges) (posed : Posed G config problem) {assignment : Assignment}
    {seeding : Seeding} (resolved : Seeding.resolve (α := K) problem.graph.nodeCount problem.seeds =
      .ok (assignment, seeding)) (additions : List Nat) :
    Search.Balanced G problem.nodeVolume (problem.begin assignment seeding additions) :=
  posed.balanced_of_symmetric resolved given.closed given.adjacent_comm given.symmetric given.edges.2.1 additions

variable [IsStrictOrderedRing K]

theorem Reaches.ledger (given : G.FromEdges) (posed : Posed G config problem) (lawful : sampler.Lawful)
    (reaches : problem.Reaches sampler ending) :
    let sequential := config.Alone G.nodeCount ∨ sampler.schedule.Sequential
    (sequential → ending.terminalState ≠ .toleranceExhausted) ∧ ∃ current,
      Search.Ledger sequential G problem.nodeVolume (problem.scale #[]) ending.state.modularities
        ending.state.hierarchy current := by
  obtain ⟨assignment, seeding, resolved, run⟩ := reaches
  have positive : 0 < (problem.scale assignment).coefficient := Volumes.coefficient_pos _ _ _
  have fits := posed.fits
  have climbing : Search.Climbing ⟨problem.config, problem.scale assignment, sampler⟩ G problem.nodeVolume
      (problem.begin assignment seeding sampler.schedule.additions) :=
    ⟨posed.balanced given resolved _, (congrArg Graph.nodeCount fits.graph).le, Search.ledger_start _ _ _ _ _ _ _⟩
  obtain ⟨last, climbing, finished | ⟨further, step⟩⟩ := run.last
    (fun holds step => step.climbing given.closed lawful positive holds) climbing
  · rw [finished, scale_congr problem #[] assignment, ← fits.config]
    exact ⟨fun _ => nofun, _, climbing.ledger⟩
  · rw [scale_congr problem #[] assignment, ← fits.config]
    exact step.ended positive climbing

/-- Where no visits overlap, modularity grows from iteration to iteration, so no search ends because it
decreased. -/
theorem modularities_increase (given : G.FromEdges) (posed : Posed G config problem)
    (lawful : sampler.Lawful) (sequential : config.Alone G.nodeCount ∨ sampler.schedule.Sequential)
    (ok : (problem.run sampler watch).1 = .ok result) :
    result.modularities.length = result.ranIterations ∧ result.modularities.Pairwise (· < ·) ∧
      result.terminalState ≠ .toleranceExhausted := by
  obtain ⟨ending, reaches, rfl⟩ := run_ok ok
  obtain ⟨proceeds, current, ledger⟩ := reaches.ledger given posed lawful
  unfold Search.Ending.result
  cases ending.ofSeeds with
  | some modularity => exact ⟨rfl, List.pairwise_singleton _ _, proceeds sequential⟩
  | none =>
    exact ⟨reaches.tracks.size, List.isChain_iff_pairwise.mp (ledger.increasing sequential), proceeds sequential⟩

theorem modularities_increase_star :
    starResult.modularities.length = starResult.ranIterations ∧
      starResult.modularities.Pairwise (· < ·) ∧
      starResult.terminalState ≠ .toleranceExhausted :=
  modularities_increase (fromEdges_star (by decide +kernel)) (posed_star (by decide +kernel))
    (Sampler.lawful_steady ℚ) (.inl (.inr (by decide +kernel))) run_star

/-- Where visits overlap, two leaves may join a hub that has room for one of them, and the modularity decreases. -/
theorem terminalState_crowd : crowd.graph.FromEdges ∧ Posed crowd.graph crowd.config crowd ∧
    ((Sampler.steady ℚ).under .crowding).Lawful ∧ ∃ result,
      (crowd.run ((Sampler.steady ℚ).under .crowding) fun _ => false).1 = .ok result ∧
        result.terminalState = .toleranceExhausted := by
  obtain ⟨seeding, resolved⟩ := exists_resolve_crowd
  have balanced := posed_crowd.balanced fromEdges_crowd resolved []
  obtain ⟨ending, reaches, exhausted⟩ := exists_reaches_crowd balanced resolved
  refine ⟨fromEdges_crowd, posed_crowd, (Sampler.lawful_steady ℚ).under _, _,
    (run_ok_iff fun _ => rfl).mpr ⟨ending, reaches, rfl⟩, ?_⟩
  rw [Search.Ending.result]
  split
  · exact exhausted
  · exact exhausted

/-- Each modularity is that of the partition recorded with it, measured on the graph itself. -/
theorem modularities_of_levels (given : G.FromEdges) (posed : Posed G config problem)
    (lawful : sampler.Lawful) (ok : (problem.run sampler watch).1 = .ok result)
    {dendrogram : Dendrogram} (recorded : result.dendrogram = some dendrogram) :
    dendrogram.levels.size = result.modularities.length ∧
      ∀ (i : Nat) level, dendrogram.levels[i]? = some level →
        level.size = G.nodeCount ∧
        (∃ assignment : Assignment, assignment.Within G.nodeCount ∧ assignment.Alike G.nodeCount level) ∧
        ∀ assignment : Assignment, assignment.Within G.nodeCount →
          assignment.Alike G.nodeCount level →
          result.modularities[i]? = some (problem.modularityOf assignment) := by
  obtain ⟨ending, reaches, rfl⟩ := run_ok ok
  obtain ⟨-, current, ledger⟩ := reaches.ledger given posed lawful
  have graph := posed.fits.graph
  subst graph
  unfold Search.Ending.result at recorded ⊢
  cases seeds : ending.ofSeeds with
  | some modularity =>
    rw [seeds] at recorded
    cases recorded
  | none =>
    rw [seeds] at recorded
    dsimp only at recorded ⊢
    unfold Hierarchy.dendrogram? at recorded
    split at recorded
    · rename_i kept
      cases recorded
      refine ⟨by simpa using ledger.aligned kept, fun i level found => ?_⟩
      refine ⟨ledger.sized level (Array.mem_of_getElem? found), Assignment.exists_alike _ _,
        fun assignment within alike => ?_⟩
      rw [Array.getElem?_toList, ledger.measured kept i level found, modularityOf_eq given.closed within,
        quality_congr alike]
    · cases recorded

theorem modularities_of_levels_star :
    starResult.modularities[1]? = some ((star ℚ).modularityOf #[0, 1, 1, 0]) := by
  have levels := (modularities_of_levels (fromEdges_star (by decide +kernel))
    (posed_star (by decide +kernel)) (Sampler.lawful_steady ℚ) run_star rfl).2
  have nodes : (star ℚ).graph.nodeCount = 4 := by decide +kernel
  have within : Assignment.Within #[0, 1, 1, 0] (star ℚ).graph.nodeCount := by
    rw [nodes]
    exact ⟨rfl, by decide⟩
  refine (levels 1 #[3, 0, 0, 3] rfl).2.2 #[0, 1, 1, 0] within ?_
  rw [nodes]
  unfold Assignment.Alike
  decide

end CommunityDetection.Problem
