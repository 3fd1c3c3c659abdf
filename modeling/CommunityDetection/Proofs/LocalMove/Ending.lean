import CommunityDetection.Proofs.Graph.Build
import CommunityDetection.Proofs.LocalMove.Ascent
import CommunityDetection.Proofs.LocalMove.Hub
import CommunityDetection.Proofs.LocalMove.Passes

/-!
# Moves come to an end

In exact arithmetic, on a graph whose weights are the same in both directions, a node takes the best of the
communities open to it (`le_best`), and every move that no other visit overlaps raises the objective. So where
visits are made one after another, no assignment comes back, and the number of assignments with a higher
objective (`rank`) bounds the passes that are left (`settle_of_rank`). The limit on the passes is never met
then, and the moves end with the same report under any other limit that is not below the number of assignments
(`moves_ascend`).
-/

namespace CommunityDetection.LocalMove
open Finset

variable {K : Type} [Field K] [LinearOrder K] {setting : Setting K} {start state next : State K}
  {node community : Nat}

/-! ## The best community -/

theorem le_consider (setting : Setting K) (state : State K) (node : Nat) (best entry : Nat × K) :
    best.2 ≤ (consider setting state node best entry).2 := by
  unfold consider
  split
  · exact le_rfl
  · split
    · rename_i better
      exact better.le
    · exact le_rfl

theorem join_le_consider {candidate : Nat × K} (fits : Candidate setting state node candidate)
    (best : Nat × K) :
    join setting state node candidate ≤ (consider setting state node best candidate).2 := by
  have accepted : ¬(candidate.1 = state.assignment.of node ∨
      barred state (state.assignment.of node) candidate.1 = true) := by
    simp [fits.leaves, fits.allowed]
  rw [consider, if_neg accepted]
  split
  · exact le_rfl
  · rename_i worse
    exact not_lt.mp worse

theorem le_best {candidate : Nat × K} (fits : Candidate setting state node candidate) :
    join setting state node candidate ≤ (best setting state node).2 := by
  have all (entries : List (Nat × K)) (first : Nat × K) :
      first.2 ≤ (entries.foldl (consider setting state node) first).2 ∧
        (candidate ∈ entries →
          join setting state node candidate ≤ (entries.foldl (consider setting state node) first).2) := by
    induction entries generalizing first with
    | nil => exact ⟨le_rfl, fun listed => nomatch listed⟩
    | cons entry entries ih =>
      obtain ⟨grows, later⟩ := ih (consider setting state node first entry)
      refine ⟨(le_consider setting state node first entry).trans grows, fun listed => ?_⟩
      rcases List.mem_cons.mp listed with rfl | listed
      · exact (join_le_consider fits first).trans grows
      · exact later listed
  rw [best_eq_foldl]
  exact (all _ _).2 fits.listed

theorem exists_candidate {neighbor : Nat} (adjacent : setting.graph.Adjacent node neighbor)
    (other : neighbor ≠ node) (leaves : state.assignment.of neighbor ≠ state.assignment.of node)
    (allowed : barred state (state.assignment.of node) (state.assignment.of neighbor) = false) :
    ∃ weight, Candidate setting state node (state.assignment.of neighbor, weight) := by
  obtain ⟨entry, inRow, rfl⟩ := adjacent
  have key : state.assignment.of entry.1 ∈ (weights setting state.assignment node).map Prod.fst := by
    rw [weights, Tally.mem_keys_ofPairs, List.map_map]
    exact List.mem_map.mpr ⟨entry, List.mem_filter.mpr ⟨inRow, by simpa using other⟩, rfl⟩
  obtain ⟨⟨-, weight⟩, listed, rfl⟩ := List.mem_map.mp key
  exact ⟨weight, listed, leaves, allowed⟩

/-! ## The passes that are left -/

def tabulated {n : Nat} (table : Fin n → Fin n) (node : Nat) : Nat :=
  if bound : node < n then table ⟨node, bound⟩ else 0

def tableQuality (setting : Setting K)
    (table : Fin setting.graph.nodeCount → Fin setting.graph.nodeCount) : K :=
  quality setting.graph.nodeCount setting.graph.weight setting.nodeVolumes.read setting.gamma
    (tabulated table)

/-- The number of assignments with a higher objective. -/
def rank (setting : Setting K) (state : State K) : Nat :=
  (univ.filter fun table => objective setting state < tableQuality setting table).card

theorem exists_table (within : state.assignment.Within setting.graph.nodeCount) :
    ∃ table, tableQuality setting table = objective setting state := by
  refine ⟨fun node => ⟨state.assignment.of node, within.bounded node node.isLt⟩, ?_⟩
  have tables : ∀ v < setting.graph.nodeCount, tabulated (fun node : Fin setting.graph.nodeCount =>
      (⟨state.assignment.of node, within.bounded node node.isLt⟩ : Fin _)) v = state.assignment.of v :=
    fun v bound => dif_pos bound
  exact quality_congr fun u boundU v boundV => by rw [tables u boundU, tables v boundV]

theorem rank_lt (within : next.assignment.Within setting.graph.nodeCount)
    (raised : objective setting state < objective setting next) :
    rank setting next < rank setting state := by
  obtain ⟨table, equal⟩ := exists_table within
  refine card_lt_card ((ssubset_iff_of_subset ?_).mpr ⟨table, ?_, ?_⟩)
  · exact monotone_filter_right _ fun _ _ higher => raised.trans higher
  · simpa [equal] using raised
  · simp [equal]

theorem rank_lt_pow (within : state.assignment.Within setting.graph.nodeCount) :
    rank setting state < setting.graph.nodeCount ^ setting.graph.nodeCount := by
  obtain ⟨table, equal⟩ := exists_table within
  have all : (univ : Finset (Fin setting.graph.nodeCount → Fin setting.graph.nodeCount)).card =
      setting.graph.nodeCount ^ setting.graph.nodeCount := by simp
  rw [← all]
  exact card_lt_card ((ssubset_iff_of_subset (filter_subset _ _)).mpr ⟨table, mem_univ _, by simp [equal]⟩)

variable [IsStrictOrderedRing K]

/-- Passes end before the limit if the rank is below it, and then the limit does not show. -/
theorem settle_of_rank (sequential : setting.Sequential) (closed : setting.graph.Closed)
    (symmetric : setting.graph.Symmetric) {active : Array Bool} (size : active.size = setting.graph.nodeCount)
    (sound : Sound setting state)
    {limit : Nat} (enough : rank setting state < limit) (passes : List Nat) :
    let report := settle setting limit active state passes
    report.failure? = none ∧ report.passes.length ≤ passes.length + rank setting state + 1 ∧
      ∀ other, rank setting state < other → settle setting other active state passes = report := by
  induction limit generalizing active state passes with
  | zero => exact absurd enough (Nat.not_lt_zero _)
  | succ limit ih =>
    have underway := underway_sweep sequential passes.length size state
    have swept := underway.trail.sound closed sound
    have steady := swept.volumes.drift?_eq_none swept.within.bounded
    let pass := sweep setting (setting.turns passes.length) active state
    by_cases done : pass.moves = 0 ∨ pass.state.occupied = setting.graph.nodeCount
    · have ends (other : Nat) : settle setting (other + 1) active state passes =
          ⟨pass.state, (pass.moves :: passes).reverse, none⟩ := by
        simp only [settle, steady, pass, if_pos done]
      refine ⟨by rw [ends], by rw [ends]; simp, fun other more => ?_⟩
      obtain ⟨other, rfl⟩ := Nat.exists_eq_succ_of_ne_zero (Nat.ne_zero_of_lt more)
      rw [ends, ends]
    · have goesOn (other : Nat) : settle setting (other + 1) active state passes =
          settle setting other pass.awake pass.state (pass.moves :: passes) := by
        simp only [settle, steady, pass, if_neg done]
      -- A pass that is not the last one has raised the objective.
      have raised := underway.trail.quality_lt closed symmetric sound fun none => done (.inl none)
      have lower := rank_lt swept.within raised
      obtain ⟨settled, few, same⟩ := ih underway.size swept (by omega) (pass.moves :: passes)
      refine ⟨by rw [goesOn]; exact settled, ?_, fun other more => ?_⟩
      · rw [goesOn]
        rw [List.length_cons] at few
        have below : rank setting pass.state < rank setting state := lower
        exact few.trans (by omega)
      · obtain ⟨other, rfl⟩ := Nat.exists_eq_succ_of_ne_zero (Nat.ne_zero_of_lt more)
        rw [goesOn, goesOn]
        exact same other (by omega)

theorem run_settles (sequential : setting.Sequential) (closed : setting.graph.Closed)
    (symmetric : setting.graph.Symmetric) (sound : Sound setting start) : (run setting start).failure? = none := by
  have room : rank setting start < passLimit setting.graph.nodeCount :=
    (rank_lt_pow sound.within).trans_le
      ((Nat.pow_le_pow_left (Nat.le_mul_of_pos_right _ (by decide)) _).trans (Nat.le_succ _))
  exact (settle_of_rank sequential closed symmetric Array.size_replicate sound room []).1

/-! ## Moves ascend and end -/

/-- A move raises the objective by twice what the node gains with it, and the community of no neighbour
that is open to the node would raise it more. -/
structure Raises (setting : Setting K) (state : State K) (node community : Nat) : Prop where
  raised : objective setting (state.move node (setting.nodeVolumes.read node) community) =
    objective setting state + 2 * ((best setting state node).2 - stay setting state node)
  gains : 0 < (best setting state node).2 - stay setting state node
  greatest : ∀ neighbor, setting.graph.Adjacent node neighbor → neighbor ≠ node →
    state.assignment.of neighbor ≠ state.assignment.of node →
    barred state (state.assignment.of node) (state.assignment.of neighbor) = false →
    objective setting
        (state.move node (setting.nodeVolumes.read node) (state.assignment.of neighbor)) ≤
      objective setting (state.move node (setting.nodeVolumes.read node) community)

theorem raises_of_target? (closed : setting.graph.Closed) (symmetric : setting.graph.Symmetric)
    (sound : Sound setting state) (bound : node < setting.graph.nodeCount)
    (moves : target? setting state node = some community) : Raises setting state node community := by
  obtain ⟨raised, gains⟩ := objective_of_target? closed symmetric sound bound moves
  refine ⟨raised, gains, fun neighbor adjacent other leaves allowed => ?_⟩
  obtain ⟨toNeighbor, fitsNeighbor⟩ := exists_candidate adjacent other leaves allowed
  have most := le_best fitsNeighbor
  rw [raised, objective_move closed symmetric sound bound fitsNeighbor]
  linarith

theorem Trail.objective_le (closed : setting.graph.Closed) (symmetric : setting.graph.Symmetric)
    {count : Nat} (trail : Trail setting start count state) (sound : Sound setting start) :
    objective setting start ≤ objective setting state ∧
      (objective setting state = objective setting start ↔ count = 0) := by
  by_cases none : count = 0
  · subst none
    cases trail
    exact ⟨le_rfl, iff_of_true rfl rfl⟩
  · have raised := trail.quality_lt closed symmetric sound none
    exact ⟨raised.le, iff_of_false raised.ne' none⟩

/-- From any start with right volumes, whatever the resolution: each move, in whatever order nodes are
visited one after another, raises the objective by twice what its node gains, and by the most that is open to
the node. So no assignment occurs twice. Where no visits overlap, the passes end without a fault, and no limit
on them that is not below the number of assignments shows in the report; the objective after them is that of
the start exactly if nothing moved, and else higher. Whatever the turns of the workers, passes that end without
a fault and moved nothing left the start as it was. -/
theorem moves_ascend (closed : setting.graph.Closed) (symmetric : setting.graph.Symmetric)
    {assignment : Assignment} {volumes : Cells K} {tracked : Nat}
    (starts : LocalMove.start setting.graph.nodeCount assignment volumes tracked = .ok start)
    (size : assignment.size = setting.graph.nodeCount)
    (sums : Volumes.Sound ⟨setting.nodeVolumes, volumes⟩ assignment setting.graph.nodeCount) :
    (∀ count state, Trail setting start count state →
      (∀ concurrency, objective setting state = setting.graph.modularity state.assignment
        state.communityVolumes setting.gamma 1 concurrency) ∧
      (∀ node < setting.graph.nodeCount, ∀ community, target? setting state node = some community →
        Raises setting state node community) ∧
      ∀ later next, Trail setting state later next → later ≠ 0 →
        objective setting state < objective setting next ∧ state.assignment ≠ next.assignment) ∧
    let n := setting.graph.nodeCount
    let report := run setting start
    (setting.Sequential →
      report.failure? = none ∧ report.passes.length ≤ n ^ n ∧
      (∀ limit, n ^ n ≤ limit → settle setting limit (Array.replicate n true) start [] = report) ∧
      Trail setting start report.moves report.state ∧
      objective setting start ≤ objective setting report.state ∧
      (objective setting report.state = objective setting start ↔ report.moves = 0)) ∧
    (report.failure? = none → report.moves = 0 → report.state = start) := by
  have within := within_of_start starts size
  obtain ⟨rfl, rfl⟩ := start_ok starts
  have sound : Sound setting start := ⟨within, sums⟩
  refine ⟨fun count state trail => ?_, fun sequential => ?_, fun settled still => (run_still settled still).1⟩
  · have reached := trail.sound closed sound
    refine ⟨fun concurrency => ?_, fun node bound community moves => ?_, fun later next after moved => ?_⟩
    · rw [Graph.modularity_eq_quality closed reached.volumes reached.within.bounded, one_mul]
      rfl
    · exact raises_of_target? closed symmetric reached bound moves
    · have raised := after.quality_lt closed symmetric reached moved
      refine ⟨raised, fun same => raised.ne ?_⟩
      rw [objective, objective, same]
  · have few := rank_lt_pow within
    have room : setting.graph.nodeCount ^ setting.graph.nodeCount < passLimit setting.graph.nodeCount := by
      have wide : setting.graph.nodeCount ≤ setting.graph.nodeCount * (1 <<< 65) :=
        Nat.le_mul_of_pos_right _ (by decide)
      exact Nat.lt_succ_of_le (Nat.pow_le_pow_left wide _)
    obtain ⟨settled, short, same⟩ := settle_of_rank sequential closed symmetric
      (Array.size_replicate : (Array.replicate setting.graph.nodeCount true).size = _) sound
      (few.trans room) []
    have trail := run_trail sequential settled
    have passes : (run setting start).passes.length ≤ 0 + rank setting start + 1 := short
    exact ⟨settled, by omega, fun limit enough => same limit (few.trans_le enough), trail,
      trail.objective_le closed symmetric sound⟩

theorem moves_ascend_loopedPath :
    let volumes := Volumes.initial Graph.loopedPath (.singletons 4) true 1
    let setting : Setting ℚ :=
      { graph := .loopedPath, nodeVolumes := volumes.nodes, gamma := 1 / 8, concurrency := 1 }
    ∃ start, LocalMove.start 4 (.singletons 4) volumes.communities 4 = .ok start ∧
      (run setting start).failure? = none ∧
      objective setting start < objective setting (run setting start).state := by
  intro volumes setting
  have nodes : setting.graph.nodeCount = 4 := by decide +kernel
  have sums : Volumes.Sound ⟨setting.nodeVolumes, volumes.communities⟩ (.singletons 4)
      setting.graph.nodeCount := Volumes.sound_initial Graph.loopedPath true 1 [] (by decide +kernel)
  have starts : LocalMove.start setting.graph.nodeCount (.singletons 4) volumes.communities 4 =
      .ok ⟨.singletons 4, volumes.communities, #[1, 1, 1, 1], 4⟩ := by
    rw [nodes]
    rfl
  obtain ⟨-, ascends, -⟩ :=
    moves_ascend Graph.fromEdges_loopedPath.closed Graph.fromEdges_loopedPath.symmetric
      starts (by rw [nodes]; rfl) sums
  obtain ⟨settled, -, -, -, most, same⟩ := ascends (.inr fun _ _ => nofun)
  refine ⟨_, rfl, settled, most.lt_of_ne fun equal => ?_⟩
  have moved : (run setting ⟨.singletons 4, volumes.communities, #[1, 1, 1, 1], 4⟩).moves ≠ 0 := by
    decide +kernel
  exact moved (same.mp equal.symm)

/-- Where visits overlap, two moves may lower the objective. -/
theorem objective_lt_hubGraph : ∃ assignment tracked start,
    let volumes := Volumes.initial hubGraph assignment true 4
    let setting : Setting ℚ :=
      { graph := hubGraph, nodeVolumes := volumes.nodes, gamma := 9 / 200, concurrency := 4
        turns := fun pass => if pass = 0 then List.replicate 6 (.access 1) else [] }
    Graph.ofWeightedEdges 1003 .undirected hubEdges = .ok hubGraph ∧
      LocalMove.start 1003 assignment volumes.communities tracked = .ok start ∧
      Volumes.Sound ⟨setting.nodeVolumes, volumes.communities⟩ assignment 1003 ∧
      (run setting start).failure? = none ∧ (run setting start).moves = 2 ∧
      objective setting (run setting start).state < objective setting start := by
  let assignment : Assignment :=
    ((List.range 1003).map fun node => if node = 1001 then 0 else if node = 1002 then 2 else node).toArray
  have given := Graph.FromEdges.weighted built_hubGraph
  have stores : hubGraph.Stores 1003 .undirected true hubEdges := Graph.stores_of_build_ok built_hubGraph
  have nodes := stores.nodes
  have named (node : Nat) (bound : node < 1003) : assignment.of node =
      if node = 1001 then 0 else if node = 1002 then 2 else node := by
    simp [assignment, Assignment.of, bound]
  have within : assignment.Within 1003 := by
    refine ⟨by simp [assignment], fun node bound => ?_⟩
    rw [named node bound]
    split
    · decide
    · split <;> omega
  let volumes := Volumes.initial hubGraph assignment true 4
  let setting : Setting ℚ :=
    { graph := hubGraph, nodeVolumes := volumes.nodes, gamma := 9 / 200, concurrency := 4
      turns := fun pass => if pass = 0 then List.replicate 6 (.access 1) else [] }
  have sums : Volumes.Sound ⟨setting.nodeVolumes, volumes.communities⟩ assignment setting.graph.nodeCount :=
    Volumes.sound_initial hubGraph true 4 [] (by rw [nodes]; exact within.bounded)
  obtain ⟨start, starts, -⟩ := exists_start within volumes.communities rfl
  have hub : Hub setting := by
    refine hub_of_stores given.closed stores (by decide) (fun v bound => ?_) rfl
    exact Volumes.read_nodes_initial hubGraph assignment true 4 [] (bound.trans_eq nodes.symm)
  rw [← nodes] at starts within named
  have hosts : Hosts setting 2 start := hosts_of_start starts within.size sums named
  have ran : run setting start = _ := hub.run_left hosts rfl rfl
  have lower := hub.objective_left hosts given.symmetric
  rw [nodes] at starts sums
  refine ⟨assignment, _, start, built_hubGraph, starts, sums, congrArg Report.failure? ran,
    congrArg Report.moves ran, ?_⟩
  change objective setting (run setting start).state < _
  rw [ran, lower]
  exact sub_lt_self _ (by norm_num)

end CommunityDetection.LocalMove
