import CommunityDetection.Search.Level
import CommunityDetection.Proofs.Coarsening.Handover
import CommunityDetection.Proofs.Coarsening.Sums
import CommunityDetection.Proofs.Graph.Condense
import CommunityDetection.Proofs.LocalMove.Ledger
import CommunityDetection.Proofs.Refinement.Parts

/-!
# Levels under moves and coarsening

The coarse level of refined parts condenses the level that it came from, and has the same communities
(`WellFormed.coarsen`, `same_iff_coarsen`). In exact arithmetic its weights and volumes are sums
(`Weighed.coarsen`), so both partitions have the same quality (`quality_coarsen`).
-/

namespace CommunityDetection.Level
open Finset

section Discrete

variable {σ α : Type} [Scalar α] {level : Level α} {scale : Scale α} {concurrency : Nat}
  {start state : LocalMove.State α} {turns : Nat → List Turn} {active : Array Bool} {refined : Refinement.Result α}

/-- Relationships lead to nodes, in both directions, and communities are named by nodes. -/
structure WellFormed (level : Level α) : Prop where
  closed : level.graph.Closed
  comm : ∀ {u v}, level.graph.Adjacent u v → level.graph.Adjacent v u
  within : level.assignment.Within level.graph.nodeCount

omit [Scalar α] in
theorem moveStart_ok (starts : level.moveStart = .ok start) :
    start.assignment = level.assignment ∧ start.communityVolumes = level.volumes.communities :=
  LocalMove.start_ok starts

theorem WellFormed.moved (formed : WellFormed level) (starts : level.moveStart = .ok start)
    (passed : LocalMove.Passed (level.moveSetting scale concurrency turns) start active state) :
    WellFormed (level.moved state) where
  closed := formed.closed
  comm := formed.comm
  within := passed.within formed.closed ((moveStart_ok starts).1 ▸ formed.within)

def refineSetting (level : Level α) (scale : Scale α) (concurrency : Nat) : Refinement.Setting α where
  graph := level.graph
  assignment := level.assignment
  nodeVolumes := level.volumes.nodes
  communityVolumes := level.volumes.communities
  gamma := scale.gamma
  concurrency := concurrency

def Refines (level : Level α) (refined : Refinement.Result α) : Prop :=
  ∃ scale concurrency, Refinement.Refines (level.refineSetting scale concurrency) refined

theorem refines_refine (closed : level.graph.Closed) {sampler : Sampler σ α} (lawful : sampler.Lawful)
    (draws : σ) : level.Refines (level.refine scale concurrency sampler draws).1 :=
  ⟨scale, concurrency, Refinement.run_refines lawful closed draws⟩

omit [Scalar α] in
theorem Refines.covers (refines : level.Refines refined) :
    Coarsening.Covers refined.parts level.graph.nodeCount refined.largest := by
  obtain ⟨scale, concurrency, sound⟩ := refines
  refine ⟨sound.within.size, fun v bound => ?_⟩
  have largest (names : List Nat) (first : Nat) :
      first ≤ names.foldl max first ∧ ∀ name ∈ names, name ≤ names.foldl max first := by
    induction names generalizing first with
    | nil => simp
    | cons name names ih =>
      obtain ⟨grows, bounds⟩ := ih (max first name)
      refine ⟨(le_max_left _ _).trans grows, fun other member => ?_⟩
      rcases List.mem_cons.mp member with rfl | member
      · exact (le_max_right _ _).trans grows
      · exact bounds other member
  have inside : v < refined.parts.size := sound.within.size.symm ▸ bound
  rw [Refinement.Result.largest, ← Array.foldl_toList]
  refine (largest refined.parts.toList 0).2 _ ?_
  simp [Assignment.of, inside]

def part (level : Level α) (refined : Refinement.Result α) (node : Nat) : Nat :=
  Coarsening.merged (level.coarsen refined).graph refined.parts node

theorem part_lt (refines : level.Refines refined) {node : Nat} (bound : node < level.graph.nodeCount) :
    level.part refined node < (level.coarsen refined).graph.nodeCount :=
  Coarsening.merged_lt level.graph refines.covers bound

theorem toMapped?_part (refines : level.Refines refined) {node : Nat}
    (bound : node < level.graph.nodeCount) :
    (level.coarsen refined).graph.toMapped? (refined.parts.of node) = some (level.part refined node) :=
  Coarsening.toMapped?_graph level.graph refines.covers bound

theorem origin_part (refines : level.Refines refined) {node : Nat}
    (bound : node < level.graph.nodeCount) :
    Coarsening.origin (level.coarsen refined).graph level.assignment (level.part refined node) =
      level.assignment.of node := by
  have original := Coarsening.toOriginal_merged level.graph refines.covers bound
  obtain ⟨scale, concurrency, sound⟩ := refines
  rw [Coarsening.origin, part]
  exact (congrArg level.assignment.of original).trans (sound.inside node bound)

theorem same_iff_coarsen (refines : level.Refines refined) {u v : Nat}
    (bound : u < level.graph.nodeCount) (bounded : v < level.graph.nodeCount) :
    (level.coarsen refined).assignment.of (level.part refined u) =
        (level.coarsen refined).assignment.of (level.part refined v) ↔
      level.assignment.of u = level.assignment.of v := by
  have carried := Coarsening.carried_handover (level.coarsen refined).graph level.assignment
    refined.volumes
  rw [← origin_part refines bound, ← origin_part refines bounded]
  exact carried.same_iff (part_lt refines bound) (part_lt refines bounded)

theorem WellFormed.coarsen (formed : WellFormed level) (refines : level.Refines refined) :
    WellFormed (level.coarsen refined) where
  closed := Coarsening.closed_graph formed.closed refines.covers
  comm := by
    intro a b adjacent
    obtain ⟨u, v, edge, left, right⟩ := (Coarsening.adjacent_graph refines.covers).mp adjacent
    exact (Coarsening.adjacent_graph refines.covers).mpr ⟨v, u, formed.comm edge, right, left⟩
  within := (Coarsening.carried_handover _ _ _).within

theorem condenses_coarsen (formed : WellFormed level) (refines : level.Refines refined) :
    level.graph.Condenses (level.coarsen refined).graph (level.part refined) where
  maps v bound := part_lt refines bound
  adjacent a b := Coarsening.adjacent_graph refines.covers
  linked u bound v bounded same := by
    have parts : refined.parts.of u = refined.parts.of v :=
      (Coarsening.merged_eq_iff level.graph refines.covers bound bounded).mp same
    have weaker : ∀ w, refined.parts.of w = refined.parts.of u →
        level.part refined w = level.part refined u := by
      intro w equal
      rw [part, Coarsening.merged, equal]
      rfl
    obtain ⟨scale, concurrency, sound⟩ := refines
    have left := sound.linked u bound
    have right := sound.linked v bounded
    rw [← parts] at right
    exact (left.trans (right.symm formed.comm)).mono weaker

end Discrete

section Exact

variable {σ K : Type} [Field K] [LinearOrder K] {level : Level K} {scale : Scale K} {concurrency : Nat}
  {start state : LocalMove.State K} {turns : Nat → List Turn} {active : Array Bool} {count : Nat}

structure Weighed (level : Level K) : Prop where
  symmetric : level.graph.Symmetric
  volumes : level.volumes.Sound level.assignment level.graph.nodeCount

def quality (level : Level K) (gamma : K) : K :=
  CommunityDetection.quality level.graph.nodeCount level.graph.weight level.volumes.nodes.read gamma
    level.assignment.of

theorem modularity_eq (formed : WellFormed level) (weighed : Weighed level) (scale : Scale K)
    (concurrency : Nat) :
    level.modularity scale concurrency = scale.coefficient * level.quality scale.gamma :=
  Graph.modularity_eq_quality formed.closed weighed.volumes formed.within.bounded _ _ _

theorem sound_moveStart (formed : WellFormed level) (weighed : Weighed level)
    (starts : level.moveStart = .ok start) :
    LocalMove.Sound (level.moveSetting scale concurrency turns) start := by
  obtain ⟨assignment, volumes⟩ := moveStart_ok starts
  constructor
  · rw [assignment]
    exact formed.within
  · rw [assignment, volumes]
    exact weighed.volumes

theorem Weighed.moved [IsStrictOrderedRing K] (formed : WellFormed level) (weighed : Weighed level)
    (starts : level.moveStart = .ok start)
    (passed : LocalMove.Passed (level.moveSetting scale concurrency turns) start active state) :
    Weighed (level.moved state) where
  symmetric := weighed.symmetric
  volumes :=
    (passed.sound formed.closed (sound_moveStart formed weighed starts)).volumes

theorem quality_lt_moved [IsStrictOrderedRing K] (formed : WellFormed level) (weighed : Weighed level)
    (starts : level.moveStart = .ok start)
    (trail : LocalMove.Trail (level.moveSetting scale concurrency turns) start count state)
    (moved : count ≠ 0) : level.quality scale.gamma < (level.moved state).quality scale.gamma := by
  have raised := trail.quality_lt formed.closed weighed.symmetric
    (sound_moveStart formed weighed starts) moved
  unfold LocalMove.objective at raised
  rwa [(moveStart_ok starts).1] at raised

variable {sampler : Sampler σ K} {draws : σ}

theorem merges_coarsen (scale : Scale K) (concurrency : Nat) (closed : level.graph.Closed)
    (size : level.volumes.nodes.size = level.graph.nodeCount) (lawful : sampler.Lawful) (draws : σ) :
    let refined := (level.refine scale concurrency sampler draws).1
    Merges level.graph.nodeCount (level.coarsen refined).graph.nodeCount (level.part refined)
      level.graph.weight (level.coarsen refined).graph.weight level.volumes.nodes.read
      (level.coarsen refined).volumes.nodes.read := by
  intro refined
  have refines : level.Refines refined := refines_refine closed lawful draws
  have carried := Coarsening.carried_handover (level.coarsen refined).graph level.assignment
    refined.volumes
  refine Coarsening.merges_graph closed refines.covers fun coarse bound => ?_
  obtain ⟨u, inside, rfl⟩ := Coarsening.exists_merged level.graph refines.covers bound
  have original : (level.coarsen refined).graph.toOriginal (level.part refined u) =
      refined.parts.of u := Coarsening.toOriginal_merged level.graph refines.covers inside
  have named : refined.parts.of u < level.graph.nodeCount := by
    obtain ⟨_, _, sound⟩ := refines
    exact sound.within.bounded u inside
  have sums := Refinement.run_volumes (level.refineSetting scale concurrency) lawful
    closed size draws _ named
  calc (level.coarsen refined).volumes.nodes.read (level.part refined u)
      = refined.volumes.read (refined.parts.of u) := by
        rw [← original]
        exact carried.volumes _ (part_lt refines inside)
    _ = ∑ v ∈ range level.graph.nodeCount with refined.parts.of v = refined.parts.of u,
          level.volumes.nodes.read v := sums
    _ = _ := sum_congr (filter_congr fun v inRange =>
        (Coarsening.merged_eq_iff level.graph refines.covers (mem_range.mp inRange) inside).symm)
        fun _ _ => rfl

theorem Weighed.coarsen (formed : WellFormed level) (weighed : Weighed level)
    {refined : Refinement.Result K} (refines : level.Refines refined) :
    Weighed (level.coarsen refined) where
  symmetric := Coarsening.symmetric_graph formed.closed weighed.symmetric refines.covers
  volumes := Coarsening.sound_handover _ _ _

theorem quality_coarsen (formed : WellFormed level) (weighed : Weighed level) (lawful : sampler.Lawful)
    (draws : σ) (gamma : K) :
    (level.coarsen (level.refine scale concurrency sampler draws).1).quality gamma =
      level.quality gamma := by
  have refines : level.Refines (level.refine scale concurrency sampler draws).1 :=
    refines_refine formed.closed lawful draws
  unfold quality
  rw [(merges_coarsen scale concurrency formed.closed weighed.volumes.size_nodes lawful
    draws).quality_pullback]
  exact quality_congr fun u bound v bounded => same_iff_coarsen refines bound bounded

end Exact

end CommunityDetection.Level
