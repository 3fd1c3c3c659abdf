import CommunityDetection.Proofs.Search.Level

/-!
# Levels in order

A level is in order (`Level.Ready`) if its moves can start: every node has a community named by a node,
the number of communities is right, and there are volumes for all of them. Moves and the way down keep
levels in order, whatever the numbers are, and every index that the way down reads is in range
(`Level.Indexed`).
-/

namespace CommunityDetection.Level

variable {σ α : Type} [Scalar α] {level : Level α} {scale : Scale α} {concurrency : Nat}
  {start state : LocalMove.State α} {turns : Nat → List Turn} {active : Array Bool} {refined : Refinement.Result α}

structure Ready (level : Level α) : Prop where
  closed : level.graph.Closed
  within : level.assignment.Within level.graph.nodeCount
  counts : level.communityCount = (level.assignment.used level.graph.nodeCount).card
  size_nodes : level.volumes.nodes.size = level.graph.nodeCount
  size_communities : level.volumes.communities.size = level.graph.nodeCount

omit [Scalar α] in
theorem Ready.exists_moveStart (ready : level.Ready) :
    ∃ start, level.moveStart = .ok start ∧ LocalMove.Counted level.graph.nodeCount start :=
  LocalMove.exists_start ready.within level.volumes.communities ready.counts

omit [Scalar α] in
theorem Ready.counted (ready : level.Ready) (starts : level.moveStart = .ok start) :
    LocalMove.Counted level.graph.nodeCount start := by
  obtain ⟨found, ok, counted⟩ := ready.exists_moveStart
  rw [starts] at ok
  cases ok
  exact counted

theorem Ready.moved (ready : level.Ready) (starts : level.moveStart = .ok start)
    (passed : LocalMove.Passed (level.moveSetting scale concurrency turns) start active state) :
    (level.moved state).Ready := by
  have counted := passed.counted ready.closed (ready.counted starts)
  refine ⟨ready.closed, counted.within, counted.occupied, ready.size_nodes, ?_⟩
  show state.communityVolumes.size = level.graph.nodeCount
  rw [passed.size_volumes, (moveStart_ok starts).2, ready.size_communities]

omit [Scalar α] in
theorem Ready.stray?_eq_none (ready : level.Ready) :
    level.volumes.stray? level.assignment = none := by
  apply Volumes.stray?_eq_none
  rw [ready.size_nodes, ready.size_communities]
  exact ready.within.bounded

theorem Ready.coarsen (ready : level.Ready) (refines : level.Refines refined) :
    (level.coarsen refined).Ready := by
  have carried := Coarsening.carried_handover (level.coarsen refined).graph level.assignment
    refined.volumes
  exact ⟨Coarsening.closed_graph ready.closed refines.covers, carried.within, carried.met,
    carried.size_nodes, carried.size_communities⟩

/-! ## What the way down reads -/

/-- Every index that is read on the way to the coarse level is in range. -/
structure Indexed (level : Level α) (refined : Refinement.Result α) : Prop where
  parts : refined.parts.size = level.graph.nodeCount
  targets : ∀ node, ∀ entry ∈ level.graph.row node, entry.1 < refined.parts.size
  bounded : ∀ node < level.graph.nodeCount, refined.parts.of node ≤ refined.largest
  found : ∀ node < level.graph.nodeCount, ∃ coarse < (level.coarsen refined).graph.nodeCount,
    (level.coarsen refined).graph.toMapped? (refined.parts.of node) = some coarse
  originals : ∀ translation ∈ (level.coarsen refined).graph.translation,
    translation.original.size = (level.coarsen refined).graph.nodeCount
  communities : ∀ coarse < (level.coarsen refined).graph.nodeCount,
    (level.coarsen refined).graph.toOriginal coarse < level.assignment.size
  volumes : ∀ coarse < (level.coarsen refined).graph.nodeCount,
    (level.coarsen refined).graph.toOriginal coarse < refined.volumes.size
  carried : (level.coarsen refined).assignment.size = (level.coarsen refined).graph.nodeCount
  named : ∀ coarse < (level.coarsen refined).graph.nodeCount,
    (level.coarsen refined).assignment.of coarse < (level.coarsen refined).volumes.communities.size

theorem Ready.size_volumes_refine (ready : level.Ready) {sampler : Sampler σ α}
    (lawful : sampler.Lawful) (draws : σ) :
    (level.refine scale concurrency sampler draws).1.volumes.size = level.graph.nodeCount :=
  (Refinement.size_volumes_run (level.refineSetting scale concurrency) lawful draws).trans
    ready.size_nodes

theorem Ready.indexed (ready : level.Ready) (refines : level.Refines refined)
    (size : refined.volumes.size = level.graph.nodeCount) : level.Indexed refined := by
  have covers := refines.covers
  have coarse := ready.coarsen refines
  have original : ∀ a < (level.coarsen refined).graph.nodeCount,
      (level.coarsen refined).graph.toOriginal a < level.graph.nodeCount := by
    intro a bound
    obtain ⟨v, inside, rfl⟩ := Coarsening.exists_merged level.graph covers bound
    have named := Coarsening.toOriginal_merged level.graph covers inside
    obtain ⟨_, _, sound⟩ := refines
    exact named ▸ sound.within.bounded v inside
  constructor
  · exact covers.size
  · rw [covers.size]
    exact ready.closed
  · exact covers.bounded
  · exact fun node bound => ⟨_, part_lt refines bound, toMapped?_part refines bound⟩
  · rintro translation ⟨⟩
    exact (Coarsening.nodeCount_graph level.graph refined.parts refined.largest).symm
  · rw [ready.within.size]
    exact original
  · rw [size]
    exact original
  · exact coarse.within.size
  · rw [coarse.size_communities]
    exact coarse.within.bounded

end CommunityDetection.Level
