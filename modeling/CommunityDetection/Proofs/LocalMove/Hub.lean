import CommunityDetection.Proofs.Graph.Storage
import CommunityDetection.Proofs.LocalMove.Counts
import CommunityDetection.Proofs.LocalMove.Crowd

/-!
# A hub with a visitor

The community of a hub is too large for its two leaves while a visitor is in it, so these rest until the visitor
has left for its neighbour (`Hub.run_full`). Then there is room for one of them, and both may join it at the same
time, to the loss of the objective (`Hub.run_left`).
-/

namespace CommunityDetection.LocalMove
open Finset

/-- The hub `0` has a heavy partner `1001` and the two leaves `1` and `1000`. The visitor `1002` has the one
neighbour `2`. -/
structure Hub (setting : Setting ℚ) : Prop where
  closed : setting.graph.Closed
  nodes : setting.graph.nodeCount = 1003
  spans : setting.graph.spans setting.concurrency = [⟨0, 1000⟩, ⟨1000, 1003⟩]
  hub : others setting.graph 0 = [(1, 1), (1000, 1), (1001, 10)]
  near : others setting.graph 1 = [(0, 1)]
  host : others setting.graph 2 = [(1002, 1)]
  far : others setting.graph 1000 = [(0, 1)]
  partner : others setting.graph 1001 = [(0, 10)]
  visitor : others setting.graph 1002 = [(2, 1)]
  rest : ∀ node, node ≠ 0 → node ≠ 1 → node ≠ 2 → node ≠ 1000 → node ≠ 1001 → node ≠ 1002 →
    others setting.graph node = []
  hub_volume : setting.nodeVolumes.read 0 = 12
  near_volume : setting.nodeVolumes.read 1 = 1
  host_volume : setting.nodeVolumes.read 2 = 1
  far_volume : setting.nodeVolumes.read 1000 = 1
  partner_volume : setting.nodeVolumes.read 1001 = 10
  visitor_volume : setting.nodeVolumes.read 1002 = 1
  gamma : setting.gamma = 9 / 200

/-- Every node is alone but for the partner, which is with the hub, and the visitor. -/
structure Hosts (setting : Setting ℚ) (place : Nat) (state : State ℚ) : Prop where
  sound : Sound setting state
  counted : Counted setting.graph.nodeCount state
  named : ∀ node < setting.graph.nodeCount, state.assignment.of node =
    if node = 1001 then 0 else if node = 1002 then place else node

variable {setting : Setting ℚ} {state : State ℚ} {place node : Nat}

theorem Sound.volume_eq (sound : Sound setting state) {community : Nat} (inside : community < setting.graph.nodeCount)
    (members : Finset Nat)
    (same : ∀ v, v ∈ members ↔ v < setting.graph.nodeCount ∧ state.assignment.of v = community) :
    state.communityVolumes.read community = ∑ v ∈ members, setting.nodeVolumes.read v := by
  have equal : members = (range setting.graph.nodeCount).filter (state.assignment.of · = community) := by
    ext v
    rw [mem_filter, mem_range, same]
  rw [sound.volumes.sums community inside, equal]

theorem hosts_of_start {assignment : Assignment} {volumes : Cells ℚ} {tracked : Nat}
    (starts : LocalMove.start setting.graph.nodeCount assignment volumes tracked = .ok state)
    (size : assignment.size = setting.graph.nodeCount)
    (sums : Volumes.Sound ⟨setting.nodeVolumes, volumes⟩ assignment setting.graph.nodeCount)
    (named : ∀ node < setting.graph.nodeCount, assignment.of node =
      if node = 1001 then 0 else if node = 1002 then place else node) : Hosts setting place state := by
  have counted := counted_of_start starts size
  have within := within_of_start starts size
  obtain ⟨rfl, rfl⟩ := start_ok starts
  exact ⟨⟨within, sums⟩, counted, named⟩

namespace Hub

variable (hub : Hub setting)

include hub

theorem isolated (apart : node ∉ ({0, 1, 2, 1000, 1001, 1002} : Finset Nat)) : target? setting state node = none := by
  simp only [mem_insert, mem_singleton, not_or] at apart
  exact target?_of_isolated (hub.rest node apart.1 apart.2.1 apart.2.2.1 apart.2.2.2.1 apart.2.2.2.2.1 apart.2.2.2.2.2)

section Hosts

variable (hosts : Hosts setting place state)

include hosts

theorem of_lower (bound : node ≤ 1000) : state.assignment.of node = node := by
  rw [hosts.named node (by rw [hub.nodes]; omega), if_neg (by omega), if_neg (by omega)]

theorem of_partner : state.assignment.of 1001 = 0 := by
  rw [hosts.named 1001 (by rw [hub.nodes]; decide), if_pos rfl]

theorem of_visitor : state.assignment.of 1002 = place := by
  rw [hosts.named 1002 (by rw [hub.nodes]; decide), if_neg (by decide), if_pos rfl]

theorem volume_alone (bound : node ≤ 1000) (apart : node ≠ 0) (away : node ≠ place) :
    state.communityVolumes.read node = setting.nodeVolumes.read node := by
  have nodes := hub.nodes
  rw [hosts.sound.volume_eq (by omega) {node}, sum_singleton]
  intro v
  rw [mem_singleton]
  constructor
  · rintro rfl
    exact ⟨by omega, hub.of_lower hosts bound⟩
  · rintro ⟨inside, same⟩
    rw [hosts.named v inside] at same
    split at same
    · omega
    · split at same <;> omega

theorem volume_full (full : place = 0) : state.communityVolumes.read 0 = 23 := by
  have nodes := hub.nodes
  rw [hosts.sound.volume_eq (by omega) {0, 1001, 1002}, sum_insert (by decide), sum_insert (by decide), sum_singleton,
    hub.hub_volume, hub.partner_volume, hub.visitor_volume]
  · norm_num
  · intro v
    simp only [mem_insert, mem_singleton]
    constructor
    · rintro (rfl | rfl | rfl)
      · exact ⟨by omega, hub.of_lower hosts (by omega)⟩
      · exact ⟨by omega, hub.of_partner hosts⟩
      · exact ⟨by omega, (hub.of_visitor hosts).trans full⟩
    · rintro ⟨inside, same⟩
      rw [hosts.named v inside] at same
      split at same
      · omega
      · split at same <;> omega

theorem volume_left (left : place ≠ 0) : state.communityVolumes.read 0 = 22 := by
  have nodes := hub.nodes
  rw [hosts.sound.volume_eq (by omega) {0, 1001}, sum_insert (by decide), sum_singleton,
    hub.hub_volume, hub.partner_volume]
  · norm_num
  · intro v
    simp only [mem_insert, mem_singleton]
    constructor
    · rintro (rfl | rfl)
      · exact ⟨by omega, hub.of_lower hosts (by omega)⟩
      · exact ⟨by omega, hub.of_partner hosts⟩
    · rintro ⟨inside, same⟩
      rw [hosts.named v inside] at same
      split at same
      · omega
      · split at same <;> omega

/-- The partner holds the hub. -/
theorem hub_rests (apart : place ≠ 1) (away : place ≠ 1000) (total : state.communityVolumes.read 0 ≤ 23) :
    target? setting state 0 = none := by
  have home : state.assignment.of 0 = 0 := hub.of_lower hosts (by omega)
  have tally : weights setting state.assignment 0 = [(1, 1), (1000, 1), (0, 10)] := by
    rw [weights_eq, hub.hub, List.map_cons, List.map_cons, List.map_singleton, hub.of_lower hosts (by omega),
      hub.of_lower hosts (by omega), hub.of_partner hosts]
    rfl
  have stays : stay setting state 0 = 10 - 12 * (state.communityVolumes.read 0 - 12) * (9 / 200) := by
    rw [stay, home, tally, hub.hub_volume, hub.gamma]
    rfl
  have near : state.communityVolumes.read 1 = 1 :=
    (hub.volume_alone hosts (by omega) (by decide) apart.symm).trans hub.near_volume
  have far : state.communityVolumes.read 1000 = 1 :=
    (hub.volume_alone hosts (by omega) (by decide) away.symm).trans hub.far_volume
  refine target?_of_content fun candidate fits => not_lt.mpr ?_
  have listed := fits.listed
  rw [tally] at listed
  rw [stays, join, hub.hub_volume, hub.gamma, gain]
  rcases List.mem_cons.mp listed with rfl | listed
  · rw [near]
    linarith
  · rcases List.mem_cons.mp listed with rfl | listed
    · rw [far]
      linarith
    · rw [List.mem_singleton.mp listed] at fits
      exact absurd home.symm fits.leaves

end Hosts

theorem occupied_lt (left : Hosts setting 2 state) : state.occupied < setting.graph.nodeCount := by
  have nodes := hub.nodes
  refine left.counted.occupied_lt (show 2 < _ by omega) (show 1002 < _ by omega) (by decide) ?_
  rw [hub.of_lower left (by decide), hub.of_visitor left]

/-! ## The visitor leaves -/

section Full

variable (hosts : Hosts setting 0 state)

include hosts

theorem visitor_fits : Candidate setting state 1002 (2, 1) := by
  have host := hub.of_lower hosts (show 2 ≤ 1000 by decide)
  have visitor := hub.of_visitor hosts
  refine ⟨?_, ?_, ?_⟩
  · rw [weights_leaf hub.visitor, host]
    exact List.mem_singleton_self _
  · rw [visitor]
    decide
  · have nodes := hub.nodes
    have pair : 1 < (state.assignment.members setting.graph.nodeCount 0).card := by
      refine one_lt_card.mpr ⟨0, ?_, 1001, ?_, by decide⟩
      · simpa [nodes] using hub.of_lower hosts (show 0 ≤ 1000 by decide)
      · simpa [nodes] using hub.of_partner hosts
    have size := hosts.counted.sizes 0 (by omega)
    have several : (state.sizeOf 0 == 1) = false := beq_false_of_ne (by omega)
    rw [visitor, barred, several, Bool.false_and, Bool.false_and]

theorem hosts_left : Hosts setting 2 (state.move 1002 1 2) := by
  have nodes := hub.nodes
  have fits := hub.visitor_fits hosts
  have sound := hosts.sound.move hub.closed (by omega) fits
  rw [hub.visitor_volume] at sound
  refine ⟨sound, hosts.counted.move (by omega) (by omega) fits.leaves 1, fun node inside => ?_⟩
  rw [State.of_move (by rw [hosts.sound.within.size]; omega), hosts.named node inside]
  by_cases visitor : node = 1002
  · rw [if_pos visitor, if_neg (by omega), if_pos visitor]
  · rw [if_neg visitor, if_neg visitor, if_neg visitor]

theorem leaf_waits {leaf : Nat} (leafOf : others setting.graph leaf = [(0, 1)]) (bound : leaf ≤ 1000)
    (apart : leaf ≠ 0) (volume : setting.nodeVolumes.read leaf = 1) : target? setting state leaf = none := by
  refine target?_leaf_eq_none leafOf fun _ _ => ?_
  rw [hub.of_lower hosts bound, hub.of_lower hosts (Nat.zero_le _), hub.volume_full hosts rfl,
    hub.volume_alone hosts bound apart apart, volume, hub.gamma]
  norm_num [gain]

theorem host_waits : target? setting state 2 = none := by
  refine target?_leaf_eq_none hub.host fun _ _ => ?_
  rw [hub.of_visitor hosts, hub.of_lower hosts (by decide), hub.volume_full hosts rfl,
    hub.volume_alone hosts (by decide) (by decide) (by decide), hub.host_volume, hub.gamma]
  norm_num [gain]

theorem all_wait : ∀ node ∈ List.range 1002, target? setting state node = none := by
  intro node member
  have below := List.mem_range.mp member
  by_cases special : node ∈ ({0, 1, 2, 1000, 1001, 1002} : Finset Nat)
  · simp only [mem_insert, mem_singleton] at special
    rcases special with rfl | rfl | rfl | rfl | rfl | rfl
    · exact hub.hub_rests hosts (by decide) (by decide) (hub.volume_full hosts rfl).le
    · exact hub.leaf_waits hosts hub.near (by decide) (by decide) hub.near_volume
    · exact hub.host_waits hosts
    · exact hub.leaf_waits hosts hub.far (by decide) (by decide) hub.far_volume
    · exact target?_leaf_of_inside hub.partner ((hub.of_lower hosts (Nat.zero_le _)).trans (hub.of_partner hosts).symm)
    · exact absurd below (lt_irrefl _)
  · exact hub.isolated special

theorem visitor_leaves : target? setting state 1002 = some 2 := by
  have host : state.assignment.of 2 = 2 := hub.of_lower hosts (by decide)
  have fits := hub.visitor_fits hosts
  rw [← host]
  refine target?_leaf_eq_some hub.visitor (host.symm ▸ fits.leaves) (host.symm ▸ fits.allowed) ?_
  rw [hub.of_visitor hosts, host, hub.volume_full hosts rfl, hub.visitor_volume,
    hub.volume_alone hosts (by decide) (by decide) (by decide), hub.host_volume, hub.gamma]
  norm_num [gain]

/-- In the order of the nodes, the leaves of the hub wait, and then the visitor leaves. -/
theorem run_full (first : setting.turns 0 = []) (inOrder : setting.turns 1 = []) :
    run setting state = ⟨state.move 1002 1 2, [1, 0], none⟩ := by
  have nodes := hub.nodes
  have left := hub.hosts_left hosts
  have order (active : Array Bool) : sweep setting (setting.turns 0) active state =
      walk setting active (List.range 1002 ++ 1002 :: []) state := by
    rw [first, sweep_nil, nodes, List.range_succ]
    rfl
  have volume := hub.visitor_volume
  rw [← volume] at left ⊢
  refine run_single order (by omega) (hub.all_wait hosts) (hub.visitor_leaves hosts)
    (fun _ member => absurd member List.not_mem_nil)
    (fun other adjacent apart outside => ?_) ?_ ?_ inOrder
  · rw [eq_of_adjacent_leaf hub.visitor adjacent apart] at outside
    have home := hub.of_lower left (show 2 ≤ 1000 by decide)
    exact absurd home outside
  · exact left.sound.volumes.drift?_eq_none left.sound.within.bounded
  · exact (hub.occupied_lt left).ne

end Full

/-! ## After the visit -/

section Left

variable (hosts : Hosts setting 2 state)

include hosts

theorem crowded : Crowded setting state 1 1000 0 1 1 22 := by
  have nodes := hub.nodes
  have near : state.assignment.of 1 = 1 := hub.of_lower hosts (by omega)
  have far : state.assignment.of 1000 = 1000 := hub.of_lower hosts (by omega)
  have home : state.assignment.of 0 = 0 := hub.of_lower hosts (by omega)
  constructor
  · rw [nodes]
    exact hub.spans
  · decide
  · omega
  · exact hub.near
  · exact hub.far
  · rw [home, near]
    decide
  · rw [home, far]
    decide
  · rw [near, far]
    decide
  · exact hub.near_volume
  · exact hub.far_volume
  · rw [near, hub.volume_alone hosts (by omega) (by decide) (by decide), hub.near_volume]
  · rw [far, hub.volume_alone hosts (by omega) (by decide) (by decide), hub.far_volume]
  · rw [home, hub.volume_left hosts (by decide)]
  · rw [hub.gamma]
    norm_num

/-- Once the visitor has left, both leaves may join the hub. -/
theorem run_left (raced : setting.turns 0 = List.replicate 6 (.access 1)) (inOrder : setting.turns 1 = []) :
    run setting state = ⟨(state.move 1 1 0).move 1000 1 0, [2, 0], none⟩ := by
  have crowded := hub.crowded hosts
  have home : state.assignment.of 0 = 0 := hub.of_lower hosts (by omega)
  have host : state.assignment.of 2 = 2 := hub.of_lower hosts (by omega)
  have nodes := hub.nodes
  have ran := crowded.run_eq hosts.sound hub.closed hosts.counted (fun node below => ?_) (fun node above below => ?_)
    (fun node above => ?_) raced inOrder
  · rwa [home] at ran
  · rw [Nat.lt_one_iff.mp below]
    exact hub.hub_rests hosts (by decide) (by decide) (by rw [hub.volume_left hosts (by decide)]; norm_num)
  · by_cases atHost : node = 2
    · subst atHost
      refine target?_leaf_of_inside hub.host ?_
      rw [crowded.of_near hosts.sound, crowded.of_near hosts.sound, if_neg (by decide), if_neg (by decide),
        hub.of_visitor hosts, host]
    · exact hub.isolated (by simp; omega)
  · have both (other : Nat) (apart : other ≠ 1000) (away : other ≠ 1) :
        ((state.move 1 1 (state.assignment.of 0)).move 1000 1 (state.assignment.of 0)).assignment.of other =
          state.assignment.of other := by
      rw [crowded.of_both hosts.sound hub.closed, if_neg apart, crowded.of_near hosts.sound, if_neg away]
    by_cases atPartner : node = 1001
    · subst atPartner
      refine target?_leaf_of_inside hub.partner ?_
      rw [both 0 (by decide) (by decide), both 1001 (by decide) (by decide), hub.of_partner hosts, home]
    · by_cases atVisitor : node = 1002
      · subst atVisitor
        refine target?_leaf_of_inside hub.visitor ?_
        rw [both 2 (by decide) (by decide), both 1002 (by decide) (by decide), hub.of_visitor hosts, host]
      · exact hub.isolated (by simp; omega)

theorem occupied_both_lt : ((state.move 1 1 0).move 1000 1 0).occupied < setting.graph.nodeCount := by
  have fewer := (hub.crowded hosts).occupied_lt hosts.sound hub.closed hosts.counted
  rwa [hub.of_lower hosts (Nat.zero_le _)] at fewer

theorem objective_left (symmetric : setting.graph.Symmetric) :
    objective setting ((state.move 1 1 0).move 1000 1 0) = objective setting state - 1 / 20 := by
  have home : state.assignment.of 0 = 0 := hub.of_lower hosts (by omega)
  have changed := (hub.crowded hosts).objective_eq hosts.sound hub.closed symmetric
  rw [home, hub.gamma] at changed
  rw [changed]
  ring

end Left

end Hub

/-! ## Graphs with these edges -/

def hubEdges : List (Edge ℚ) := [⟨0, 1, 1⟩, ⟨0, 1000, 1⟩, ⟨0, 1001, 10⟩, ⟨2, 1002, 1⟩]

theorem entries_hubEdges {node : Nat} (apart : node ∉ ({0, 1, 2, 1000, 1001, 1002} : Finset Nat)) :
    hubEdges.flatMap (Edge.entries .undirected node) = [] := by
  simp only [mem_insert, mem_singleton, not_or] at apart
  obtain ⟨hub, near, host, far, partner, visitor⟩ := apart
  simp [hubEdges, Edge.entries, Ne.symm hub, Ne.symm near, Ne.symm host, Ne.symm far, Ne.symm partner,
    Ne.symm visitor]

theorem sorted_hubEdges (node : Nat) : Tally.Sorted (hubEdges.flatMap (Edge.entries .undirected node)) := by
  by_cases special : node ∈ ({0, 1, 2, 1000, 1001, 1002} : Finset Nat)
  · simp only [mem_insert, mem_singleton] at special
    unfold Tally.Sorted
    rcases special with rfl | rfl | rfl | rfl | rfl | rfl <;> decide
  · rw [entries_hubEdges special]
    exact List.Pairwise.nil

theorem hub_of_stores (closed : setting.graph.Closed)
    (stores : setting.graph.Stores 1003 .undirected true hubEdges) (several : 1 < setting.concurrency)
    (volumes : ∀ v < 1003, setting.nodeVolumes.read v = setting.graph.volume true v)
    (gamma : setting.gamma = 9 / 200) : Hub setting := by
  have nodes := stores.nodes
  have relationships : setting.graph.relationshipCount = 8 := stores.relationshipCount (by decide)
  have light : setting.graph.relationshipCount + setting.graph.nodeCount < 2 * Span.leastSize := by
    rw [relationships, nodes]
    decide
  have others (node : Nat) : others setting.graph node =
      (hubEdges.flatMap (Edge.entries .undirected node)).filter fun entry => entry.1 != node := by
    rw [LocalMove.others, stores.row]
  have volume {node : Nat} (bound : node < 1003) : setting.nodeVolumes.read node =
      Scalar.total ((hubEdges.flatMap (Edge.entries .undirected node)).map Prod.snd) :=
    (volumes node bound).trans (stores.volume node)
  have many : Span.leastSize < setting.graph.nodeCount := by
    rw [nodes]
    decide
  refine ⟨closed, nodes, ?_, others 0, others 1, others 2, others 1000, others 1001, others 1002, ?_, ?_, ?_, ?_, ?_,
    ?_, ?_, gamma⟩
  · rw [Graph.spans_pair several many light, nodes]
    rfl
  · intro node hub near host far partner visitor
    rw [others, entries_hubEdges (by simp [hub, near, host, far, partner, visitor])]
    rfl
  all_goals
    rw [volume (by decide)]
    decide +kernel

def hubGraph : Graph ℚ where
  orientation := .undirected
  weighted := true
  rows := Graph.rowsOf 1003 .undirected hubEdges
  translation := none
  properties := []

theorem built_hubGraph : Graph.ofWeightedEdges 1003 .undirected hubEdges = .ok hubGraph :=
  Graph.built_of_sound (by decide +kernel)

end CommunityDetection.LocalMove
