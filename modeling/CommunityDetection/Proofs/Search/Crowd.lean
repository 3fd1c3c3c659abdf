import CommunityDetection.Proofs.Coarsening.Unmerged
import CommunityDetection.Proofs.LocalMove.Hub
import CommunityDetection.Proofs.Resolution
import CommunityDetection.Proofs.Search.Climb
import CommunityDetection.Proofs.Search.Completeness
import CommunityDetection.Proofs.Search.Consistency

/-!
# A search whose modularity decreases

On the graph of a hub the first iteration lets the visitor leave (`Hosting.exists_descent`). If refinement merges
nothing, the graph stays as it is, and in the second iteration the two leaves may join the hub at the same
time. Then modularity is below that of the first iteration, and the search ends (`Hosting.exists_decrease`).
-/

namespace CommunityDetection

namespace Search
open LocalMove (Hub Hosts hubEdges)

variable {σ : Type} {plan : Plan σ ℚ} {G : Graph ℚ} {volume : Nat → ℚ} {merged : Nat → Nat} {place : Nat}
  {state moved recorded next : State ℚ}

/-- Every node of a level with the edges of a hub is alone but for the partner, which is with the hub, and the
visitor. -/
structure Hosting (G : Graph ℚ) (volume : Nat → ℚ) (merged : Nat → Nat) (place : Nat) (state : State ℚ) :
    Prop where
  balanced : Balanced G volume state
  rooted : Rooted G state merged
  stores : state.level.graph.Stores 1003 .undirected true hubEdges
  volumes : ∀ v < 1003, state.level.volumes.nodes.read v = state.level.graph.volume true v
  named : ∀ v < 1003, state.level.assignment.of v = if v = 1001 then 0 else if v = 1002 then place else v

theorem Hosting.record (hosting : Hosting G volume merged place moved) (records : moved.record = .ok recorded) :
    Hosting G volume merged place recorded := by
  have balanced := hosting.balanced.record records
  have rooted := hosting.rooted.record records
  rw [record_ok records] at balanced rooted ⊢
  exact ⟨balanced, rooted, hosting.stores, hosting.volumes, hosting.named⟩

theorem Hosting.complete (hosting : Hosting G volume merged place state) (modularity : ℚ) :
    Hosting G volume merged place (state.complete modularity) :=
  ⟨hosting.balanced.complete modularity, ⟨hosting.rooted.ready, hosting.rooted.separates, hosting.rooted.size,
    hosting.rooted.maps, hosting.rooted.onto, hosting.rooted.leads, hosting.rooted.known⟩, hosting.stores,
    hosting.volumes, hosting.named⟩

/-! ## The way down -/

theorem refined_of_stays (state : State ℚ) (stays : plan.sampler.Stays) :
    refined plan state = ⟨.singletons state.level.graph.nodeCount, state.level.volumes.nodes⟩ :=
  Refinement.run_of_stays (state.level.refineSetting plan.scale plan.config.concurrency) stays _

section Unmerged

variable (hosting : Hosting G volume merged 2 state) (lawful : plan.sampler.Lawful) (stays : plan.sampler.Stays)

include hosting lawful stays

theorem Hosting.covers : Coarsening.Covers (.singletons 1003) 1003
    (⟨.singletons 1003, state.level.volumes.nodes⟩ : Refinement.Result ℚ).largest := by
  have covers := (refines_refined plan hosting.balanced.anchored.formed.closed lawful).covers
  rwa [refined_of_stays state stays, hosting.stores.nodes] at covers

theorem Hosting.toOriginal_coarsen {v : Nat} (bound : v < 1003) :
    (state.level.coarsen (refined plan state)).graph.toOriginal v = v := by
  rw [refined_of_stays state stays, hosting.stores.nodes]
  exact Coarsening.toOriginal_singletons state.level.graph (hosting.covers lawful stays) bound

theorem Hosting.stores_coarsen :
    (state.level.coarsen (refined plan state)).graph.Stores 1003 .undirected true hubEdges := by
  rw [refined_of_stays state stays, hosting.stores.nodes]
  refine Coarsening.stores_graph_singletons hosting.balanced.anchored.formed.closed hosting.stores (fun v => ?_)
    (hosting.covers lawful stays)
  rw [hosting.stores.row]
  exact LocalMove.sorted_hubEdges v

theorem Hosting.origin_coarsen {v : Nat} (bound : v < 1003) :
    Coarsening.origin (state.level.coarsen (refined plan state)).graph state.level.assignment v =
      if v = 1001 then 0 else if v = 1002 then 2 else v := by
  rw [Coarsening.origin, hosting.toOriginal_coarsen lawful stays bound, hosting.named v bound]

theorem Hosting.descend (closed : G.Closed) (descends : Descends plan state next) :
    Hosting G volume (state.level.part (refined plan state) ∘ merged) 2 next := by
  have stores := hosting.stores_coarsen lawful stays
  have origin {v : Nat} (bound : v < 1003) := hosting.origin_coarsen lawful stays bound
  obtain ⟨level, -⟩ := hosting.balanced.anchored.held.descends lawful descends
  have carried := Coarsening.carried_handover (state.level.coarsen (refined plan state)).graph
    state.level.assignment (refined plan state).volumes
  rw [stores.nodes] at carried
  refine ⟨(hosting.balanced.descend closed lawful descends).1,
    hosting.rooted.descend lawful hosting.balanced.anchored.leads descends, ?_, fun v bound => ?_, fun v bound => ?_⟩
  · rw [level]
    exact stores
  · rw [level]
    calc (state.level.coarsen (refined plan state)).volumes.nodes.read v
        = (refined plan state).volumes.read ((state.level.coarsen (refined plan state)).graph.toOriginal v) :=
          carried.volumes v bound
      _ = state.level.volumes.nodes.read v := by
          rw [hosting.toOriginal_coarsen lawful stays bound, refined_of_stays state stays]
      _ = state.level.graph.volume true v := hosting.volumes v bound
      _ = _ := (hosting.stores.volume v).trans (stores.volume v).symm
  · rw [level]
    refine (carried.of_eq_origin (fun u bounded => ?_) (fun u bounded => ?_) bound).trans (origin bound)
    · rw [origin bounded]
      split_ifs <;> omega
    · rw [origin bounded]
      split_ifs with partner visitor
      · exact origin (by decide)
      · exact origin (by decide)
      · rw [origin bounded, if_neg partner, if_neg visitor]

end Unmerged

/-! ## Iterations -/

variable (several : 1 < plan.config.concurrency) (gamma : plan.scale.gamma = 9 / 200)

include several gamma

theorem Hosting.exists_start (hosting : Hosting G volume merged place state) :
    ∃ start, state.level.moveStart = .ok start ∧ Hub (state.moveSetting plan) ∧
      Hosts (state.moveSetting plan) place start := by
  have formed := hosting.balanced.anchored.formed
  obtain ⟨start, starts, -⟩ := hosting.rooted.ready.exists_moveStart
  refine ⟨start, starts, LocalMove.hub_of_stores formed.closed hosting.stores several hosting.volumes gamma,
    LocalMove.hosts_of_start starts formed.within.size hosting.balanced.weighed.volumes fun v bound => ?_⟩
  exact hosting.named v (bound.trans_eq hosting.stores.nodes)

theorem Hosting.exists_descent (hosting : Hosting G volume merged 0 state) (closed : G.Closed) (kept : G.KeepsIds)
    (lawful : plan.sampler.Lawful) (stays : plan.sampler.Stays) (first : state.modularities = #[])
    (inOrder : ∀ pass, plan.sampler.schedule.turns state.iteration pass = []) :
    ∃ moved recorded next merged, Descent plan state 1 moved recorded next ∧
      next.level.quality plan.scale.gamma = moved.level.quality plan.scale.gamma ∧
      Hosting G volume merged 2 next := by
  obtain ⟨start, starts, hub, hosts⟩ := hosting.exists_start several gamma
  have moves := moves_of_run starts (hub.run_full hosts (inOrder 0) (inOrder 1)) rfl
  have left := hub.hosts_left hosts
  have moved : Hosting G volume merged 2
      { state with level := state.level.moved (start.move 1002 1 2) } :=
    ⟨hosting.balanced.move moves, hosting.rooted.move moves, hosting.stores, hosting.volumes,
      fun v bound => left.named v (bound.trans_eq hub.nodes.symm)⟩
  obtain ⟨recorded, records⟩ := moved.rooted.exists_record kept
  have hosted := moved.record records
  obtain ⟨next, descends⟩ := hosted.rooted.exists_descends kept plan
  have quality := (hosted.balanced.descend closed lawful descends).2
  refine ⟨_, recorded, next, _, ⟨moves, ?_, ?_, records, descends⟩, ?_,
    hosted.descend lawful stays closed descends⟩
  · exact not_or.mpr ⟨Nat.one_ne_zero, (hub.occupied_lt left).ne⟩
  · rw [State.progress]
    dsimp only
    rw [first]
    rfl
  · rw [quality, record_ok records]

theorem Hosting.exists_decrease (hosting : Hosting G volume merged 2 state)
    (positive : 0 < plan.scale.coefficient)
    (last : state.modularities.back? = some (plan.scale.coefficient * state.level.quality plan.scale.gamma))
    (raced : plan.sampler.schedule.turns state.iteration 0 = List.replicate 6 (.access 1))
    (inOrder : plan.sampler.schedule.turns state.iteration 1 = []) (further : Bool) :
    ∃ moved, Step plan further state (.ended ⟨moved, false, .toleranceExhausted, none⟩) := by
  obtain ⟨start, starts, hub, hosts⟩ := hosting.exists_start several gamma
  have moves := moves_of_run starts (hub.run_left hosts raced inOrder) rfl
  have lost := hub.objective_left hosts hosting.balanced.weighed.symmetric
  unfold LocalMove.objective at lost
  rw [(Level.moveStart_ok starts).1] at lost
  refine ⟨_, .decreased moves (not_or.mpr ⟨two_ne_zero, (hub.occupied_both_lt hosts).ne⟩) ?_⟩
  rw [State.progress, (hosting.balanced.move moves).modularity_eq plan]
  dsimp only
  rw [last, Progress.of]
  refine if_pos ?_
  rw [← mul_sub]
  refine mul_neg_of_pos_of_neg positive (sub_neg.mpr ?_)
  exact lost.trans_lt (sub_lt_self _ (by norm_num))

end Search

/-! ## The problem -/

/-- In the first pass of the second iteration the second worker decides where its first node moves before the
others begin. -/
def Schedule.crowding : Schedule where
  turns iteration pass := if iteration = 1 ∧ pass = 0 then List.replicate 6 (.access 1) else []

namespace Problem

def crowd : Problem ℚ where
  graph := LocalMove.hubGraph
  config := { (Config.standard : Config ℚ) with gamma := 117 / 100, tolerance := 0 }
  seeds := some ((List.range 1001 ++ [0, 0]).map some).toArray

def crowdStart : Assignment := (List.range 1001 ++ [0, 0]).toArray

theorem fromEdges_crowd : crowd.graph.FromEdges := .weighted LocalMove.built_hubGraph

theorem stores_crowd : crowd.graph.Stores 1003 .undirected true LocalMove.hubEdges :=
  Graph.stores_of_build_ok LocalMove.built_hubGraph

theorem exists_resolve_crowd : ∃ seeding, Seeding.resolve (α := ℚ) crowd.graph.nodeCount crowd.seeds =
    .ok (crowdStart, seeding) :=
  Seeding.exists_resolve_range (by decide) _

theorem posed_crowd : Posed crowd.graph crowd.config crowd := by
  have valid : ({ crowd with seeds := none } : Problem ℚ).config.fault?.isNone = true := by decide +kernel
  have posed : Posed crowd.graph crowd.config { crowd with seeds := none } := posed_of_valid valid rfl rfl rfl
  refine posed.seeded ?_
  obtain ⟨seeding, resolved⟩ := exists_resolve_crowd
  obtain ⟨offset, accepted, -⟩ := Seeding.resolve_some resolved
  have size : ((List.range 1001 ++ [0, 0]).map some).toArray.size = crowd.graph.nodeCount := by
    rw [stores_crowd.nodes]
    simp
  rw [checkSeeds, if_neg (not_not.mpr size)]
  exact congrArg (fun checked => checked >>= fun _ => Except.ok ()) accepted

theorem gamma_crowd (assignment : Assignment) : (crowd.scale assignment).gamma = 9 / 200 := by
  have volume (v : Nat) : crowd.graph.volume true v =
      Scalar.total ((LocalMove.hubEdges.flatMap (Edge.entries .undirected v)).map Prod.snd) := stores_crowd.volume v
  have total : ∑ v ∈ Finset.range crowd.graph.nodeCount, crowd.graph.volume true v = 26 := by
    simp only [volume, stores_crowd.nodes]
    decide +kernel
  have coefficient : (crowd.scale assignment).coefficient = 1 / 26 := by
    refine (Volumes.coefficient_initial crowd.graph assignment true _ []).trans ?_
    rw [total]
    norm_num
  show 117 / 100 * (crowd.scale assignment).coefficient = 9 / 200
  rw [coefficient]
  norm_num

variable {volume : Nat → ℚ} {seeding : Seeding} {additions : List Nat}

theorem hosting_crowd
    (balanced : Search.Balanced crowd.graph volume (crowd.begin crowdStart seeding additions))
    (resolved : Seeding.resolve (α := ℚ) crowd.graph.nodeCount crowd.seeds =
      .ok (crowdStart, seeding)) :
    Search.Hosting crowd.graph volume id 0 (crowd.begin crowdStart seeding additions) := by
  refine ⟨balanced, posed_crowd.fits.rooted_begin fromEdges_crowd.closed resolved additions, stores_crowd,
    fun v bound => Volumes.read_nodes_initial _ _ _ _ _ (bound.trans_eq stores_crowd.nodes.symm), fun v bound => ?_⟩
  refine (Seeding.of_range_append 1001 [0, 0] v).trans ?_
  by_cases lower : v < 1001
  · rw [if_pos lower, if_neg (by omega), if_neg (by omega)]
  · obtain rfl | rfl : v = 1001 ∨ v = 1002 := by omega
    · rfl
    · rfl

/-- Both leaves join the hub in the second iteration, and the modularity is less than in the first one. -/
theorem exists_reaches_crowd
    (balanced : Search.Balanced crowd.graph volume (crowd.begin crowdStart seeding []))
    (resolved : Seeding.resolve (α := ℚ) crowd.graph.nodeCount crowd.seeds =
      .ok (crowdStart, seeding)) :
    ∃ ending, crowd.Reaches ((Sampler.steady ℚ).under .crowding) ending ∧
      ending.terminalState = .toleranceExhausted := by
  let plan : Search.Plan Unit ℚ :=
    ⟨crowd.config, crowd.scale crowdStart, (Sampler.steady ℚ).under .crowding⟩
  have several : 1 < plan.config.concurrency := by decide
  have gamma : plan.scale.gamma = 9 / 200 := gamma_crowd _
  have positive : 0 < plan.scale.coefficient := Volumes.coefficient_pos _ _ _
  have hosting := hosting_crowd balanced resolved
  -- In the order of the nodes only the visitor moves. That leaves room for one of the leaves with the hub.
  obtain ⟨moved, recorded, next, merged, descent, same, hosted⟩ := hosting.exists_descent several gamma
    fromEdges_crowd.closed (Graph.keepsIds_of_untranslated rfl) ((Sampler.lawful_steady ℚ).under _)
    Sampler.stays_steady rfl fun pass => rfl
  have iteration : next.iteration = 0 := by
    rw [descent.descends.tracker_eq, Search.tracker_record descent.records, descent.moves.tracker_eq]
    rfl
  have last : (next.complete (moved.modularity plan)).modularities.back? =
      some (plan.scale.coefficient * next.level.quality plan.scale.gamma) := by
    rw [same, ← (hosting.balanced.move descent.moves).modularity_eq plan]
    exact Array.back?_push
  have turns (pass : Nat) : plan.sampler.schedule.turns (next.complete (moved.modularity plan)).iteration pass =
      if pass = 0 then List.replicate 6 (.access 1) else [] := by
    show (if next.iteration + 1 = 1 ∧ pass = 0 then List.replicate 6 (Turn.access 1) else []) = _
    rw [iteration]
    exact if_congr (and_iff_right rfl) rfl rfl
  -- In the second iteration each leaf reads the volume of the hub's community without the other.
  obtain ⟨final, decrease⟩ :=
    (hosted.complete _).exists_decrease several gamma positive last (turns 0) (turns 1) true
  have run : Search.Run plan (8 + 1 + 1) (crowd.begin crowdStart seeding []) _ :=
    .completed (.descended descent.moves descent.unsettled descent.progress descent.records rfl descent.descends)
      (.ended decrease)
  exact ⟨_, ⟨_, seeding, resolved, run⟩, rfl⟩

end Problem

end CommunityDetection
