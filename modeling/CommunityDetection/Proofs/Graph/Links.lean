import CommunityDetection.Hierarchy
import CommunityDetection.Search.Level
import CommunityDetection.Proofs.Bounds
import CommunityDetection.Proofs.Coarsening.Classes
import CommunityDetection.Proofs.Graph.Build
import CommunityDetection.Proofs.LocalMove.Trail
import CommunityDetection.Proofs.Volume

/-!
# Graphs that differ in their loops

Where volumes leave loops out, nothing but modularity reads them: local moves, refinement and volumes ask for
the links of a node to other nodes, and the links of a coarse node are made of those of its members. So two
graphs with the same links have the same moves, the same parts and coarse graphs with the same links.
-/

namespace CommunityDetection

variable {α : Type}

def Graph.links (G : Graph α) (node : Nat) : Row α := (G.row node).filter fun entry => entry.1 != node

/-- Two graphs that may differ in their loops. -/
structure Graph.SameLinks (G H : Graph α) : Prop where
  nodeCount : G.nodeCount = H.nodeCount
  links : G.links = H.links
  translation : G.translation = H.translation

namespace Graph.SameLinks

variable {G H : Graph α}

theorem toMapped?_eq (same : G.SameLinks H) : G.toMapped? = H.toMapped? := by
  funext id
  simp only [toMapped?, same.translation, same.nodeCount]

theorem toOriginal_eq (same : G.SameLinks H) : G.toOriginal = H.toOriginal := by
  funext node
  simp only [toOriginal, same.translation]

end Graph.SameLinks

namespace LocalMove

variable [Scalar α] {setting : Setting α} {H : Graph α}

def Setting.on (setting : Setting α) (H : Graph α) : Setting α := { setting with graph := H }

omit [Scalar α] in
theorem wake_eq (G : Graph α) (assignment : Assignment) (node community : Nat) (awake : Array Bool) :
    wake G assignment node community awake = (G.links node).foldl
      (fun awake entry => if assignment.of entry.1 ≠ community then awake.setIfInBounds entry.1 true
        else awake) awake := by
  rw [wake, Graph.links, List.foldl_filter]
  congr 1
  funext awake entry
  by_cases loop : entry.1 = node <;> simp [loop]

variable (same : setting.graph.SameLinks H)

include same

theorem best_on (state : State α) (node : Nat) : best (setting.on H) state node = best setting state node := by
  have weights : weights (setting.on H) state.assignment node = weights setting state.assignment node :=
    congrArg (fun links : Nat → Row α => Tally.ofPairs ((links node).map fun entry : Nat × α =>
      (state.assignment.of entry.1, entry.2))) same.links.symm
  unfold best
  rw [weights]
  rfl

theorem visit_on (active : Array Bool) : Pass.visit (setting.on H) active = Pass.visit setting active := by
  funext pass node
  have targets : target? (setting.on H) pass.state node = target? setting pass.state node := by
    unfold target?
    rw [best_on same]
  have wakes (assignment : Assignment) (community : Nat) (awake : Array Bool) :
      wake (setting.on H).graph assignment node community awake =
        wake setting.graph assignment node community awake := by
    rw [wake_eq, wake_eq, same.links]
    rfl
  unfold Pass.visit
  simp only [targets, wakes]
  rfl

theorem run_on (inOrder : setting.InOrder) (inOrderOn : (setting.on H).InOrder) (state : State α) :
    run (setting.on H) state = run setting state := by
  apply run_congr
  · exact same.nodeCount.symm
  · rfl
  · intro pass active state
    rw [inOrder.sweep, inOrderOn.sweep, visit_on same, unvisited, unvisited, same.nodeCount]
    rfl

end LocalMove

namespace Refinement

variable {σ : Type} [Scalar α] {setting : Setting α} {H : Graph α}

def Setting.on (setting : Setting α) (H : Graph α) : Setting α := { setting with graph := H }

omit [Scalar α] in
theorem inner_eq (setting : Setting α) (node : Nat) : setting.inner node =
    (setting.graph.links node).filter fun entry =>
      setting.assignment.of entry.1 == setting.assignment.of node := by
  rw [Setting.inner, Graph.links, List.filter_filter]
  simp only [Bool.and_comm]

variable (same : setting.graph.SameLinks H)

include same

omit [Scalar α] in
theorem inner_on : (setting.on H).inner = setting.inner := by
  funext node
  rw [inner_eq, inner_eq, same.links]
  rfl

theorem run_on (sampler : Sampler σ α) : run (setting.on H) sampler = run setting sampler := by
  have inner := inner_on same
  have weights : weights (setting.on H) = weights setting := by
    funext state node
    simp only [weights, inner]
  have innerWeights : (setting.on H).innerWeights = setting.innerWeights := by
    simp only [Setting.innerWeights, inner, same.nodeCount]
    rfl
  have visits : visit (setting.on H) sampler = visit setting sampler := by
    funext inner state node
    unfold visit
    rw [weights]
    rfl
  unfold run
  rw [visits, innerWeights, same.nodeCount]
  unfold Setting.start
  rw [same.nodeCount]
  rfl

end Refinement

/-! ## Volumes -/

namespace Volumes

variable [Scalar α] {G H : Graph α}

theorem initial_links (same : G.SameLinks H) (assignment : Assignment) (concurrency : Nat) (turns : List Nat) :
    initial H assignment false concurrency turns = initial G assignment false concurrency turns := by
  have volumes : H.volume false = G.volume false := by
    funext node
    have links (G : Graph α) : ((G.row node).filter fun entry => false || entry.1 != node) = G.links node :=
      rfl
    simp only [Graph.volume, Graph.countsDegrees, Bool.and_false, Bool.false_eq_true, if_false,
      links, same.links]
  rw [initial_eq, initial_eq, volumes, same.nodeCount]

theorem coefficient_links (G H : Graph α) (volumes : Volumes α) :
    volumes.coefficient H false = volumes.coefficient G false := by
  simp [coefficient, Graph.countsDegrees]

end Volumes

/-! ## Coarse graphs -/

namespace Coarsening

variable [Scalar α] {G H : Graph α} {classes : Assignment} {largest : Nat}

theorem links_graph (covers : Covers classes G.nodeCount largest) {coarse : Nat}
    (bound : coarse < (graph G classes largest).nodeCount) :
    (graph G classes largest).links coarse = Tally.ofPairsSorted
      ((((List.range G.nodeCount).filter fun node =>
          merged (graph G classes largest) classes node = coarse).flatMap fun node =>
        (G.links node).map fun entry => (merged (graph G classes largest) classes entry.1, entry.2)).filter
          fun entry => entry.1 != coarse) := by
  rw [Graph.links, row_graph G covers bound, Tally.filter_ofPairsSorted, List.filter_flatMap,
    List.filter_flatMap]
  refine congrArg Tally.ofPairsSorted (List.flatMap_congr fun node member => ?_)
  have inside : merged (graph G classes largest) classes node = coarse := by
    simpa using (List.mem_filter.mp member).2
  rw [List.filter_map, List.filter_map, Graph.links, List.filter_filter]
  congr 1
  refine List.filter_congr fun entry _ => ?_
  -- The loop of a member leads back to its own class, which the other filter leaves out anyway.
  by_cases loop : entry.1 = node
  · simp [loop, inside]
  · simp [loop]

theorem sameLinks_graph (same : G.SameLinks H) (covers : Covers classes G.nodeCount largest) :
    (graph G classes largest).SameLinks (graph H classes largest) := by
  have nodeCount : (graph G classes largest).nodeCount = (graph H classes largest).nodeCount := by
    rw [nodeCount_graph, nodeCount_graph]
  have translation : (graph G classes largest).translation = (graph H classes largest).translation := rfl
  refine ⟨nodeCount, funext fun coarse => ?_, translation⟩
  have mergedEq : merged (graph H classes largest) classes = merged (graph G classes largest) classes := rfl
  by_cases bound : coarse < (graph G classes largest).nodeCount
  · rw [links_graph covers bound, links_graph (same.nodeCount ▸ covers) (nodeCount ▸ bound), mergedEq,
      same.nodeCount, same.links]
  · have outside := Nat.le_of_not_lt bound
    rw [Graph.links, Graph.links, Graph.row_of_le outside, Graph.row_of_le (nodeCount ▸ outside)]

end Coarsening

section Level

variable [Scalar α] {G H : Graph α}

theorem Coarsening.handover_links (same : G.SameLinks H) (assignment : Assignment) (volumes : Cells α) :
    handover H assignment volumes = handover G assignment volumes := by
  have extends_eq : Handover.extend H assignment volumes = Handover.extend G assignment volumes := by
    funext handover node
    simp only [Handover.extend, same.toOriginal_eq]
  simp only [handover, extends_eq, same.nodeCount]

omit [Scalar α] in
theorem Seeding.carry_links (same : G.SameLinks H) (previous next : Assignment) (seeding : Seeding) :
    seeding.carry H previous next = seeding.carry G previous next := by
  cases seeding with
  | unseeded count => rfl
  | seeded labels offset count => simp only [carry, same.toOriginal_eq]

namespace Hierarchy

variable (same : G.SameLinks H) (hierarchy : Hierarchy)

include same

omit [Scalar α] in
theorem record_links (assignment : Assignment) (seeding : Seeding) :
    hierarchy.record H assignment seeding = hierarchy.record G assignment seeding := by
  simp only [record, translate, same.toMapped?_eq]

omit [Scalar α] in
theorem descend_links (classes : Assignment) : hierarchy.descend H classes = hierarchy.descend G classes := by
  simp only [descend, translate, same.toMapped?_eq]

end Hierarchy

namespace Level

variable {σ : Type} {level : Level α} (links : level.graph.SameLinks H)

include links

omit [Scalar α] in
theorem moveStart_links : moveStart { level with graph := H } = level.moveStart := by
  simp only [moveStart, links.nodeCount]

theorem run_links (scale : Scale α) (concurrency : Nat) (turns : Nat → List Turn)
    (inOrder : (level.moveSetting scale concurrency turns).InOrder)
    (inOrderOn : (moveSetting { level with graph := H } scale concurrency turns).InOrder)
    (start : LocalMove.State α) :
    LocalMove.run (moveSetting { level with graph := H } scale concurrency turns) start =
      LocalMove.run (level.moveSetting scale concurrency turns) start := by
  have same : (level.moveSetting scale concurrency turns).graph.SameLinks H := links
  exact LocalMove.run_on same inOrder inOrderOn start

theorem refine_links (scale : Scale α) (concurrency : Nat) (sampler : Sampler σ α) :
    refine { level with graph := H } scale concurrency sampler = level.refine scale concurrency sampler := by
  let setting : Refinement.Setting α :=
    ⟨level.graph, level.assignment, level.volumes.nodes, level.volumes.communities, scale.gamma, concurrency⟩
  have links : setting.graph.SameLinks H := links
  exact Refinement.run_on links sampler

theorem coarsen_links {refined : Refinement.Result α}
    (covers : Coarsening.Covers refined.parts level.graph.nodeCount refined.largest) :
    coarsen { level with graph := H } refined =
      { level.coarsen refined with graph := Coarsening.graph H refined.parts refined.largest } := by
  simp only [coarsen, Coarsening.handover_links (Coarsening.sameLinks_graph links covers)]

end Level

end Level

/-! ## Weights and quality -/

section Weights

open Finset

variable {K : Type} [Field K] {G H : Graph K}

theorem Graph.weightAt_links (G : Graph K) {u v : Nat} (apart : v ≠ u) :
    weightAt (G.links u) v = G.weight u v := by
  rw [weight, weightAt, weightAt, Graph.links, List.filter_filter]
  congr 2
  refine List.filter_congr fun entry _ => ?_
  by_cases found : entry.1 = v <;> simp [found, apart]

theorem Graph.SameLinks.weight_eq (same : G.SameLinks H) {u v : Nat} (apart : v ≠ u) :
    G.weight u v = H.weight u v := by
  rw [← weightAt_links G apart, ← weightAt_links H apart, same.links]

/-- Loops stay inside the communities of their nodes, so they add the same to every partition. -/
theorem Graph.SameLinks.quality_eq (same : G.SameLinks H) (loopless : ∀ v, H.weight v v = 0)
    (volume : Nat → K) (gamma : K) (community : Nat → Nat) :
    quality G.nodeCount G.weight volume gamma community =
      quality H.nodeCount H.weight volume gamma community + G.uncounted false := by
  rw [uncounted, if_neg Bool.false_ne_true, quality, quality, ← same.nodeCount, ← sum_add_distrib]
  refine sum_congr rfl fun u inU => ?_
  have terms : ∀ v, (if community u = community v then bond G.weight volume gamma u v else 0) =
      (if community u = community v then bond H.weight volume gamma u v else 0) +
        if u = v then G.weight u v else 0 := by
    intro v
    unfold bond
    by_cases loop : u = v
    · subst loop
      simp only [loopless, if_true]
      ring
    · simp [loop, same.weight_eq (Ne.symm loop)]
  simp only [terms, sum_add_distrib, sum_ite_eq, inU, if_true]

end Weights

/-! ## Edges without loops -/

section Edges

def Edge.isLink (edge : Edge α) : Bool := edge.source != edge.target

theorem Edge.filter_entries {edge : Edge α} (loop : edge.isLink = false) (node : Nat) :
    (edge.entries .undirected node).filter (fun entry => entry.1 != node) = [] := by
  have ends : edge.source = edge.target := by simpa [isLink] using loop
  by_cases atNode : edge.target = node <;> simp [entries, ends, atNode]

theorem Graph.links_of_edges {G H : Graph α} {edges : List (Edge α)} (node : Nat)
    (row : G.row node = edges.flatMap (Edge.entries .undirected node))
    (other : H.row node = (edges.filter Edge.isLink).flatMap (Edge.entries .undirected node)) :
    G.links node = H.links node := by
  rw [links, links, row, other]
  clear row other
  induction edges with
  | nil => rfl
  | cons edge edges ih =>
    rw [List.flatMap_cons, List.filter_append, ih]
    cases link : edge.isLink with
    | false => simp [link, Edge.filter_entries link]
    | true => simp [link]

theorem Graph.sameLinks_filter [Scalar α] {n : Nat} {edges : List (Edge α)} {G : Graph α}
    (built : ofWeightedEdges n .undirected edges = .ok G) :
    ∃ H, ofWeightedEdges n .undirected (edges.filter Edge.isLink) = .ok H ∧ G.SameLinks H ∧
      ∀ v, ¬H.Adjacent v v := by
  obtain ⟨sound, rfl⟩ := build_ok built
  have within : ∀ edge ∈ edges, edge.Within n := fun edge member => (sound edge member).1
  have faultless : (edges.filter Edge.isLink).findSome? (Edge.fault? n) = none := by
    unfold ofWeightedEdges build at built
    cases faults : edges.findSome? (Edge.fault? n) with
    | some fault => simp [faults] at built
    | none =>
      rw [List.findSome?_eq_none_iff] at faults ⊢
      exact fun edge member => faults edge (List.mem_filter.mp member).1
  have row : ∀ node, (rowsOf n .undirected (edges.filter Edge.isLink)).getD node [] =
      (edges.filter Edge.isLink).flatMap (Edge.entries .undirected node) :=
    getD_rowsOf .undirected fun edge member => within edge (List.mem_filter.mp member).1
  refine ⟨⟨.undirected, true, rowsOf n .undirected (edges.filter Edge.isLink), none, []⟩, ?_,
    ⟨?_, ?_, rfl⟩, ?_⟩
  · rw [ofWeightedEdges, build, faultless]
  · simp [nodeCount, size_rowsOf]
  · exact funext fun node => links_of_edges node (getD_rowsOf .undirected within node) (row node)
  · rintro v ⟨entry, member, loop⟩
    rw [Graph.row, row] at member
    obtain ⟨edge, inEdges, inEntries⟩ := List.mem_flatMap.mp member
    have link : edge.source ≠ edge.target := by simpa [Edge.isLink] using (List.mem_filter.mp inEdges).2
    rcases Edge.mem_entries.mp inEntries with ⟨atNode, rfl⟩ | ⟨-, atNode, rfl⟩
    · exact link (atNode.trans loop.symm)
    · exact link (loop.trans atNode.symm)

end Edges

end CommunityDetection
