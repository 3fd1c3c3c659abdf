import CommunityDetection.Proofs.LocalMove.Stillness
import CommunityDetection.Proofs.Search.Connected
import CommunityDetection.Proofs.Search.Levels
import CommunityDetection.Proofs.Search.Reported

/-!
# Searches that end without moves

In exact arithmetic an iteration that moves nothing ends the search, and the result shows the communities in
which it started. No node of its level would raise the quality of these communities by joining a neighbour,
and taking all root nodes of that node along has the same effect on the quality of the result
(`unimprovable`).
-/

namespace CommunityDetection

namespace Search
open Finset

variable {σ K : Type} [Field K] [LinearOrder K] [IsStrictOrderedRing K] {G : Graph K} {volume : Nat → K}
  {plan : Plan σ K} {start state moved : State K} {merged : Nat → Nat} {count left : Nat}
  {ending : Ending K} {communities : Array Nat}

theorem Reached.balanced (reached : Reached plan start state merged) (closed : G.Closed)
    (lawful : plan.sampler.Lawful) (balanced : Balanced G volume start) : Balanced G volume state := by
  induction reached with
  | start => exact balanced
  | descended _ descent ih =>
    have recorded := (ih.move descent.moves).record descent.records
    exact (recorded.descend closed lawful descent.descends).1.complete _

theorem Moves.level_optimal (moves : Moves plan state 0 moved) (formed : state.level.WellFormed)
    (weighed : state.level.Weighed) {a b : Nat} (adjacent : state.level.graph.Adjacent a b) :
    quality state.level.graph.nodeCount state.level.graph.weight state.level.volumes.nodes.read
        plan.scale.gamma
        (Function.update state.level.assignment.of a (state.level.assignment.of b)) ≤
      state.level.quality plan.scale.gamma := by
  by_cases same : state.level.assignment.of b = state.level.assignment.of a
  · rw [same, Function.update_eq_self]
    exact le_rfl
  generalize zero : 0 = count at moves
  cases moves with
  | @intro start starts settled =>
    have kept := (Level.moveStart_ok starts).1
    have sound : LocalMove.Sound (state.moveSetting plan) start :=
      Level.sound_moveStart formed weighed starts
    have closed : (state.moveSetting plan).graph.Closed := formed.closed
    obtain ⟨-, -, optimal⟩ := LocalMove.still_optimal closed (fun _ _ => formed.comm) weighed.symmetric starts
      formed.within.size weighed.volumes zero.symm
    have least := optimal a b adjacent (by rwa [kept])
    rw [LocalMove.objective_move_eq sound.within adjacent.lt_left] at least
    unfold LocalMove.objectiveAfter LocalMove.objective at least
    rw [kept] at least
    exact least

/-! ## What the result shows -/

omit [Field K] [LinearOrder K] [IsStrictOrderedRing K] in
theorem Ending.communities_of_fresh (fresh : ending.state.hierarchy.current? = none) (n : Nat) :
    (ending.result n).communities = ending.state.outputs n := by
  unfold Ending.result
  cases ending.ofSeeds with
  | some modularity => rfl
  | none =>
    dsimp only
    rw [fresh]
    rfl

theorem Reached.shows_of_still (reached : Reached plan start state merged)
    (run : Run plan (left + 1) state ending) (moves : Moves plan state 0 moved) (closed : G.Closed)
    (lawful : plan.sampler.Lawful) (balanced : Balanced G volume start)
    (fresh : start.hierarchy.current? = none) (parts : ∀ v < G.nodeCount, start.part v = v) :
    ending.terminalState = .converged ∧ Shows G (ending.result G.nodeCount).communities state := by
  have ends := run.ending_of_settled moves (.inl rfl)
  have after := (reached.balanced closed lawful balanced).move moves
  obtain ⟨localStart, starts, rfl⟩ := moves.eq_of_still rfl
  have kept := (Level.moveStart_ok starts).1
  subst ends
  refine ⟨rfl, ?_⟩
  cases reached with
  | start =>
    refine ⟨?_, fun u bound v bounded => ?_⟩
    · rw [Ending.communities_of_fresh (by exact fresh)]
      simp [State.outputs]
    · rw [Ending.communities_of_fresh (by exact fresh), State.community, State.community, parts u bound,
        parts v bounded, ← kept]
      exact after.alike_outputs parts u bound v bounded
  | @descended before moved recorded next _ _ reached descent =>
    -- The iteration before recorded the level that is shown.
    have held := ((reached.balanced closed lawful balanced).move descent.moves).anchored.held
    have current := descent.current lawful held (moved.modularity plan)
    obtain ⟨level, last⟩ := exists_current descent.records
    obtain ⟨-, -, -, hierarchy, -⟩ := (held.record descent.records).descends lawful descent.descends
    have shown : (next.complete (moved.modularity plan)).hierarchy.current? = some level := by
      have kept : next.hierarchy.current? = recorded.hierarchy.current? := by rw [hierarchy]; rfl
      exact kept.trans last
    have later := descent.iteration (moved.modularity plan)
    obtain ⟨size, same⟩ := current level shown
    rw [Ending.result, if_neg (by simp [later])]
    dsimp only
    rw [shown]
    exact ⟨size, same⟩

/-- Communities of root nodes where those in one node of a level join the community of a root node. -/
def rejoined (part community : Nat → Nat) (node member root : Nat) : Nat :=
  if part root = node then community member else community root

omit [IsStrictOrderedRing K] in
theorem Balanced.quality_rejoined (balanced : Balanced G volume state) (shows : Shows G communities state)
    (gamma : K) (node : Nat) {member : Nat} (bound : member < G.nodeCount) :
    quality G.nodeCount G.weight volume gamma
        (rejoined state.part (Assignment.of communities) node member) =
      quality state.level.graph.nodeCount state.level.graph.weight state.level.volumes.nodes.read gamma
        (Function.update state.level.assignment.of node (state.community member)) := by
  have inside (root : Nat) (bounded : root < G.nodeCount) :
      (if state.part root = node then member else root) < G.nodeCount := by
    split
    · exact bound
    · exact bounded
  have below (root : Nat) : Function.update state.level.assignment.of node (state.community member)
      (state.part root) = state.community (if state.part root = node then member else root) := by
    rw [Function.update_apply, apply_ite state.community]
    rfl
  have above (root : Nat) : rejoined state.part (Assignment.of communities) node member root =
      Assignment.of communities (if state.part root = node then member else root) :=
    (apply_ite (Assignment.of communities) _ _ _).symm
  rw [balanced.merges.quality_pullback]
  refine quality_congr fun u boundU v boundV => ?_
  rw [Function.comp_apply, Function.comp_apply, below, below, above, above]
  exact shows.same_iff _ (inside u boundU) _ (inside v boundV)

end Search

namespace Problem

variable {σ K : Type} [Field K] [LinearOrder K] [IsStrictOrderedRing K]

/-- Where local moves from right volumes change nothing, no node would raise the objective by moving into the
community of a neighbour, also not where the two are alone and the node is barred. So where an iteration of a
search moves nothing, the search ends with it, and the quality of its result does not grow where a node of
the last level, with all root nodes in it, joins the community of a neighbour on that level. -/
theorem unimprovable :
    (∀ (setting : LocalMove.Setting K) (start : LocalMove.State K) (assignment : Assignment)
      (volumes : Cells K) (tracked : Nat), setting.graph.Closed →
      (∀ u v, setting.graph.Adjacent u v → setting.graph.Adjacent v u) → setting.graph.Symmetric →
      LocalMove.start setting.graph.nodeCount assignment volumes tracked = .ok start →
      assignment.size = setting.graph.nodeCount →
      Volumes.Sound ⟨setting.nodeVolumes, volumes⟩ assignment setting.graph.nodeCount →
      (LocalMove.run setting start).moves = 0 →
        (LocalMove.run setting start).failure? = none ∧ (LocalMove.run setting start).state = start ∧
        ∀ node neighbor, setting.graph.Adjacent node neighbor →
          start.assignment.of neighbor ≠ start.assignment.of node →
          LocalMove.objective setting
              (start.move node (setting.nodeVolumes.read node) (start.assignment.of neighbor)) ≤
            LocalMove.objective setting start) ∧
    ∀ (G : Graph K) (config : Config K) (problem : Problem K) (sampler : Sampler σ K), G.FromEdges →
      Posed G config problem → sampler.Lawful →
      ∀ (plan : Search.Plan σ K) (state moved : Search.State K) (merged : Nat → Nat),
      problem.Enters sampler plan state merged → state.iteration < problem.config.maxLevels →
      Search.Moves plan state 0 moved →
      ∀ (watch : Watch K) (result : Result K), (problem.run sampler watch).1 = .ok result →
        result.terminalState = .converged ∧
        (∀ node < state.level.graph.nodeCount, ∃ root < G.nodeCount, state.part root = node) ∧
        ∀ node, ∀ root < G.nodeCount, state.level.graph.Adjacent node (state.part root) →
          let measured := quality G.nodeCount G.weight problem.nodeVolume (problem.scale #[]).gamma
          measured (Search.rejoined state.part (Assignment.of result.communities) node root) ≤
            measured (Assignment.of result.communities) := by
  refine ⟨fun setting start assignment volumes tracked closed comm symmetric starts size sums still =>
    LocalMove.still_optimal closed comm symmetric starts size sums still, ?_⟩
  intro G config problem sampler given posed lawful plan state moved merged enters before moves watch
    result ok
  have rooted := enters.rooted posed.fits given.closed lawful
  obtain ⟨ending, ⟨assignment, seeding, resolved, run⟩, rfl⟩ := run_ok ok
  obtain ⟨_, _, resolvedToo, rfl, reached⟩ := enters
  cases resolved.symm.trans resolvedToo
  obtain ⟨fewer, rest⟩ := reached.exists_rest run (before.trans_eq (Nat.zero_add _).symm)
  have begun := posed.balanced given resolved sampler.schedule.additions
  have parts := (posed.fits.anchored given.closed given.adjacent_comm given.edges.2.1 resolved
    sampler.schedule.additions).2
  obtain ⟨converged, shows⟩ := reached.shows_of_still rest moves given.closed lawful begun rfl parts
  have balanced := reached.balanced given.closed lawful begun
  have faithful := Graph.faithful_of_untranslated given.edges.2.1
  rw [posed.fits.graph]
  refine ⟨?_, fun node bound => rooted.part_onto faithful balanced.anchored.leads bound,
    fun node root bound adjacent => ?_⟩
  · rw [Search.Ending.terminalState_result]
    exact converged
  · have optimal := moves.level_optimal balanced.anchored.formed balanced.weighed adjacent
    dsimp only
    rw [scale_congr problem #[] assignment, balanced.quality_rejoined shows _ node bound]
    calc _ ≤ state.level.quality (problem.scale assignment).gamma := optimal
      _ = quality G.nodeCount G.weight problem.nodeVolume (problem.scale assignment).gamma
          state.community := balanced.quality_eq _
      _ = _ := quality_congr fun u boundU v boundV => (shows.same_iff u boundU v boundV).symm

def lightEdge : Problem ℚ where
  graph := ⟨.undirected, true,
    Graph.rowsOf 2 .undirected [⟨0, 0, 1⟩, ⟨1, 1, 1⟩, ⟨0, 1, 1 / 10⟩], none, []⟩
  config := Config.standard
  seeds := none

theorem unimprovable_lightEdge :
    let begun := lightEdge.begin (.singletons 2) (.unseeded 2) []
    let setting := begun.moveSetting ⟨lightEdge.config, lightEdge.scale (.singletons 2), Sampler.steady ℚ⟩
    (∃ start, begun.level.moveStart = .ok start ∧
      LocalMove.objective setting (start.move 0 (setting.nodeVolumes.read 0) 1) ≤
        LocalMove.objective setting start) ∧
    ∃ result, (lightEdge.run (Sampler.steady ℚ) fun _ => false).1 = .ok result ∧
      result.terminalState = .converged ∧
      let measured := quality 2 lightEdge.graph.weight lightEdge.nodeVolume (lightEdge.scale #[]).gamma
      measured (Search.rejoined begun.part (Assignment.of result.communities) 0 1) ≤
        measured (Assignment.of result.communities) := by
  intro begun setting
  let volumes := (lightEdge.volumes (.singletons 2) []).communities
  let start : LocalMove.State ℚ := ⟨.singletons 2, volumes, #[1, 1], 2⟩
  have nodes : lightEdge.graph.nodeCount = 2 := by decide +kernel
  have given : lightEdge.graph.FromEdges := Graph.fromEdges_of_sound (by decide +kernel)
  have starts : begun.level.moveStart = .ok start := by
    change LocalMove.start lightEdge.graph.nodeCount (.singletons 2) volumes 2 = _
    rw [nodes]
    rfl
  have still : (LocalMove.run setting start).moves = 0 := by decide +kernel
  have apart : start.assignment.of 1 ≠ start.assignment.of 0 := by decide
  have adjacent : begun.level.graph.Adjacent 0 1 := ⟨(1, 1 / 10), by decide +kernel, rfl⟩
  obtain ⟨phase, search⟩ := @unimprovable Unit ℚ _ _ _
  obtain ⟨settled, -, optimal⟩ := phase setting start (.singletons 2) volumes 2 given.closed
    (fun _ _ => given.adjacent_comm) given.symmetric starts nodes.symm
    (Volumes.sound_initial lightEdge.graph _ _ _ (by decide +kernel)) still
  refine ⟨⟨start, starts, optimal 0 1 adjacent apart⟩, ?_⟩
  have run : (lightEdge.run (Sampler.steady ℚ) fun _ => false).1 = .ok
      { communities := #[0, 1], ranIterations := 0, didConverge := true, terminalState := .converged
        dendrogram := none, modularities := [], modularity := 0 } := by
    decide +kernel
  have posed : Posed lightEdge.graph lightEdge.config lightEdge :=
    posed_of_valid (by decide +kernel) rfl rfl rfl
  have enters := lightEdge.enters_unseeded (Sampler.steady ℚ) rfl
  rw [nodes] at enters
  have moves : Search.Moves ⟨lightEdge.config, lightEdge.scale (.singletons 2), Sampler.steady ℚ⟩ begun _ _ :=
    .intro starts settled
  rw [still] at moves
  have part : begun.part 1 = 1 := by decide +kernel
  obtain ⟨converged, -, improved⟩ := search lightEdge.graph lightEdge.config lightEdge _ given posed
    (Sampler.lawful_steady ℚ) _ _ _ _ enters (by decide +kernel) moves _ _ run
  have placed : begun.level.graph.Adjacent 0 (begun.part 1) := by rwa [part]
  have least := improved 0 1 (by rw [nodes]; decide) placed
  rw [nodes] at least
  exact ⟨_, run, converged, least⟩

end Problem

end CommunityDetection
