import CommunityDetection.Volume
import CommunityDetection.Proofs.Assignment
import CommunityDetection.Proofs.Cells
import CommunityDetection.Proofs.Schedule
import CommunityDetection.Proofs.Span

/-!
# Volumes are sums over members

In exact arithmetic the volume of each community is the sum of the volumes of its members, whatever the
order of the additions, and the scale of modularity is positive. Volumes that were added up in the order of
the nodes pass the comparison with the sums over members (`drift?_initial`), which takes no more than that
a number less itself is within the tolerance (`Steady`).
-/

namespace CommunityDetection

namespace Volumes
open Finset

section Sizes

variable {α : Type} [Scalar α]

@[simp] theorem size_gather (assignment : Assignment) (nodes sums : Cells α) (listed : List Nat) :
    (gather assignment nodes sums listed).size = sums.size := by
  induction listed generalizing sums with
  | nil => rfl
  | cons node listed ih => exact (ih _).trans (Cells.size_add _ _ _)

theorem read_gather_eq_foldl (assignment : Assignment) (nodes : Cells α) {sums : Cells α} {community : Nat}
    (inside : community < sums.size) (listed : List Nat) :
    (gather assignment nodes sums listed).read community =
      (listed.filter fun node => assignment.of node = community).foldl (fun sum node => sum + nodes.read node)
        (sums.read community) := by
  induction listed generalizing sums with
  | nil => rfl
  | cons node listed ih =>
    have step : gather assignment nodes sums (node :: listed) =
        gather assignment nodes (sums.add (assignment.of node) (nodes.read node)) listed := rfl
    rw [step, ih (by rwa [Cells.size_add])]
    by_cases member : assignment.of node = community
    · rw [List.filter_cons_of_pos (by simpa using member), List.foldl_cons, member, Cells.read_add_self inside]
    · rw [List.filter_cons_of_neg (by simpa using member), Cells.read_add_of_ne _ member]

theorem read_gather_of_members {assignment : Assignment} {n community : Nat} {listed : List Nat}
    (bound : community < n) (increasing : listed.Pairwise (· < ·))
    (members : ∀ v, v ∈ listed ↔ v < n ∧ assignment.of v = community) (nodes : Cells α) :
    (gather assignment nodes (Cells.zeros n) (List.range n)).read community =
      listed.foldl (fun sum node => sum + nodes.read node) 0 := by
  rw [read_gather_eq_foldl _ _ (by simpa using bound), Assignment.filter_range_eq increasing members,
    Cells.read_zeros]

/-- The nodes in the order in which the workers add their volumes. -/
def added (n concurrency : Nat) (turns : List Nat) : List Nat :=
  Schedule.interleave turns ((Span.even n concurrency Span.leastSize).map Span.nodes)

theorem added_perm (n concurrency : Nat) (turns : List Nat) :
    (added n concurrency turns).Perm (List.range n) := by
  rw [← Span.nodes_even n concurrency Span.leastSize, List.flatMap_def]
  exact Schedule.interleave_perm _ _

theorem added_of_length_le {n concurrency : Nat} (alone : (Span.even n concurrency Span.leastSize).length ≤ 1)
    (turns : List Nat) : added n concurrency turns = List.range n := by
  rw [added, Schedule.interleave_alone turns (by rwa [List.length_map]), ← List.flatMap_def, Span.nodes_even]

theorem added_nil (n concurrency : Nat) : added n concurrency [] = List.range n := by
  rw [← Span.nodes_even n concurrency Span.leastSize, List.flatMap_def]
  rfl

variable (G : Graph α) (assignment : Assignment) (countLoops : Bool) (concurrency : Nat) (turns : List Nat)

theorem initial_eq : initial G assignment countLoops concurrency turns =
    let nodes := ((List.range G.nodeCount).map (G.volume countLoops)).toArray
    ⟨nodes, gather assignment nodes (Cells.zeros G.nodeCount) (added G.nodeCount concurrency turns)⟩ := by
  have listed (spans : List Span) : (spans.flatMap fun span => span.nodes.map (G.volume countLoops)) =
      (spans.flatMap Span.nodes).map (G.volume countLoops) := by rw [List.map_flatMap]
  simp only [initial, listed, Span.nodes_even]
  rfl

theorem read_nodes_initial {node : Nat} (bound : node < G.nodeCount) :
    (initial G assignment countLoops concurrency turns).nodes.read node = G.volume countLoops node := by
  simp [initial_eq, Cells.read, bound]

theorem size_nodes_initial :
    (initial G assignment countLoops concurrency turns).nodes.size = G.nodeCount := by
  simp [initial_eq]

theorem size_communities_initial :
    (initial G assignment countLoops concurrency turns).communities.size = G.nodeCount := by
  simp [initial_eq]

variable {assignment}

omit [Scalar α] in
theorem stray?_eq_none {volumes : Volumes α} {assignment : Assignment}
    (bounded : ∀ node < volumes.nodes.size, assignment.of node < volumes.communities.size) :
    volumes.stray? assignment = none := by
  apply List.findSome?_eq_none_iff.mpr
  intro node inRange
  exact if_neg (bounded node (List.mem_range.mp inRange)).not_ge

theorem exists_volumeDrift {volumes : Volumes α} {assignment : Assignment} {fault : Inconsistency α}
    (none : volumes.stray? assignment = none) (drifted : volumes.drift? assignment = some fault) :
    ∃ community actual expected, fault = .volumeDrift community actual expected := by
  rw [drift?, none, Option.none_or] at drifted
  obtain ⟨community, -, found⟩ := List.exists_of_findSome?_eq_some drifted
  dsimp only at found
  split at found
  · cases found
    exact ⟨_, _, _, rfl⟩
  · cases found

/-- Numbers that do not drift by themselves: what is left of a number less itself is within the tolerance. -/
class Steady (α : Type) [Scalar α] : Prop where
  not_drifts : ∀ (volumes : Volumes α) (x : α), ¬volumes.tolerance < Scalar.abs (x - x)

theorem drift?_eq_none_of_sums [Steady α] {volumes : Volumes α} {assignment : Assignment}
    (bounded : ∀ node < volumes.nodes.size, assignment.of node < volumes.communities.size)
    (sums : ∀ community < volumes.communities.size,
      (volumes.memberSums assignment).read community = volumes.communities.read community) :
    volumes.drift? assignment = none := by
  rw [drift?, stray?_eq_none bounded, Option.none_or, List.findSome?_eq_none_iff]
  intro community inRange
  dsimp only
  rw [sums community (List.mem_range.mp inRange)]
  exact if_neg (Steady.not_drifts volumes _)

theorem drift?_initial [Steady α] (inOrder : added G.nodeCount concurrency turns = List.range G.nodeCount)
    (bounded : ∀ node < G.nodeCount, assignment.of node < G.nodeCount) :
    (initial G assignment countLoops concurrency turns).drift? assignment = none := by
  apply drift?_eq_none_of_sums
  · rwa [size_nodes_initial, size_communities_initial]
  · intro community _
    rw [memberSums, size_nodes_initial, size_communities_initial, initial_eq, inOrder]

end Sizes

variable {K : Type} [Field K] [LinearOrder K]

/-- There is a volume for each of `n` nodes, and one for each community, which is the sum over its
members. -/
structure Sound (volumes : Volumes K) (assignment : Assignment) (n : Nat) : Prop where
  size_nodes : volumes.nodes.size = n
  size_communities : volumes.communities.size = n
  sums : ∀ community < n, volumes.communities.read community =
    ∑ node ∈ range n with assignment.of node = community, volumes.nodes.read node

theorem read_gather (assignment : Assignment) (nodes : Cells K) {sums : Cells K} {n : Nat}
    (bounded : ∀ node < n, assignment.of node < sums.size) (community : Nat) :
    (gather assignment nodes sums (List.range n)).read community =
      sums.read community + ∑ node ∈ range n with assignment.of node = community, nodes.read node := by
  induction n with
  | zero => simp [gather]
  | succ n ih =>
    have step : gather assignment nodes sums (List.range (n + 1)) =
        (gather assignment nodes sums (List.range n)).add (assignment.of n) (nodes.read n) := by
      simp only [gather, List.range_succ, List.foldl_append, List.foldl_cons, List.foldl_nil]
    rw [step, Cells.read_add_exact (by simpa using bounded n (Nat.lt_succ_self n)),
      ih fun node bound => bounded node (Nat.lt_succ_of_lt bound), range_add_one, filter_insert]
    split
    · rw [sum_insert (by simp)]
      ring
    · ring

theorem gather_perm (assignment : Assignment) (nodes sums : Cells K) {listed other : List Nat}
    (same : listed.Perm other) : gather assignment nodes sums listed = gather assignment nodes sums other :=
  same.foldl_eq' (fun _ _ _ _ sums => Cells.add_right_comm sums _ _ _ _) sums

theorem sound_gather {nodes : Cells K} {n : Nat} (size : nodes.size = n) {assignment : Assignment}
    (bounded : ∀ node < n, assignment.of node < n) :
    Sound ⟨nodes, gather assignment nodes (Cells.zeros n) (List.range n)⟩ assignment n where
  size_nodes := size
  size_communities := by simp
  sums community _ := by rw [read_gather _ _ (by simpa using bounded), Cells.read_zeros, zero_add]

theorem initial_turns (G : Graph K) (assignment : Assignment) (countLoops : Bool) (concurrency : Nat)
    (turns : List Nat) :
    initial G assignment countLoops concurrency turns = initial G assignment countLoops 1 [] := by
  rw [initial_eq, initial_eq, added_nil]
  dsimp only
  rw [gather_perm _ _ _ (added_perm _ _ _)]

theorem sound_initial (G : Graph K) {assignment : Assignment} (countLoops : Bool) (concurrency : Nat)
    (turns : List Nat) (bounded : ∀ node < G.nodeCount, assignment.of node < G.nodeCount) :
    Sound (initial G assignment countLoops concurrency turns) assignment G.nodeCount := by
  rw [initial_turns, initial_eq, added_nil]
  exact sound_gather (by simp) bounded

theorem tolerance_nonneg [IsStrictOrderedRing K] (volumes : Volumes K) : 0 ≤ volumes.tolerance := by
  unfold tolerance
  rw [Scalar.sum_eq_sum]
  apply mul_nonneg
  · exact div_nonneg (Nat.cast_nonneg _) (Nat.cast_nonneg _)
  · apply List.sum_nonneg
    simp only [List.mem_map, forall_exists_index, and_imp, forall_apply_eq_imp_iff₂]
    intro volume _
    unfold Scalar.abs
    split
    · rename_i negative
      exact (neg_pos.mpr negative).le
    · rename_i positive
      exact not_lt.mp positive

instance [IsStrictOrderedRing K] : Steady K where
  not_drifts volumes x := by
    rw [sub_self]
    simpa [Scalar.abs] using volumes.tolerance_nonneg

theorem Sound.drift?_eq_none [IsStrictOrderedRing K] {volumes : Volumes K} {assignment : Assignment}
    {n : Nat} (sound : volumes.Sound assignment n) (bounded : ∀ node < n, assignment.of node < n) :
    volumes.drift? assignment = none := by
  have sized : ∀ node < volumes.nodes.size, assignment.of node < volumes.communities.size := by
    rw [sound.size_nodes, sound.size_communities]
    exact bounded
  refine drift?_eq_none_of_sums sized fun community inside => ?_
  rw [sound.size_communities] at inside
  rw [memberSums, read_gather _ _ (by simpa using sized), Cells.read_zeros, zero_add, sound.size_nodes,
    sound.sums community inside]

theorem coefficient_initial (G : Graph K) (assignment : Assignment) (countLoops : Bool)
    (concurrency : Nat) (turns : List Nat) :
    (initial G assignment countLoops concurrency turns).coefficient G countLoops =
      if 0 < ∑ v ∈ range G.nodeCount, G.volume countLoops v then
        1 / ∑ v ∈ range G.nodeCount, G.volume countLoops v
      else 1 := by
  have total : (if G.countsDegrees countLoops then (G.relationshipCount : K)
      else Scalar.sum (initial G assignment countLoops concurrency turns).nodes.toList) =
        ∑ v ∈ range G.nodeCount, G.volume countLoops v := by
    split
    · rename_i degrees
      rw [Graph.relationshipCount_eq, Nat.cast_sum]
      exact sum_congr rfl fun v _ => by rw [Graph.volume, if_pos degrees]
    · rw [Scalar.sum_eq_sum, initial_eq, sum_map_range]
  unfold coefficient
  rw [total]

theorem coefficient_pos [IsStrictOrderedRing K] (G : Graph K) (countLoops : Bool)
    (volumes : Volumes K) : 0 < volumes.coefficient G countLoops := by
  have inverse (total : K) : 0 < if 0 < total then 1 / total else 1 := by
    split
    · rename_i positive
      exact div_pos one_pos positive
    · exact one_pos
  exact inverse _

theorem coefficient_mul_total_le [IsStrictOrderedRing K] (G : Graph K) (assignment : Assignment)
    (countLoops : Bool) (concurrency : Nat) (turns : List Nat) :
    (initial G assignment countLoops concurrency turns).coefficient G countLoops *
      ∑ v ∈ range G.nodeCount, G.volume countLoops v ≤ 1 := by
  rw [coefficient_initial]
  split
  · rename_i positive
    rw [one_div_mul_cancel positive.ne']
  · rename_i none
    rw [one_mul]
    exact (not_lt.mp none).trans zero_le_one

theorem coefficient_congr {G : Graph K} {countLoops : Bool} {left right : Volumes K}
    (same : left.nodes = right.nodes) :
    left.coefficient G countLoops = right.coefficient G countLoops := by
  unfold coefficient
  rw [same]

end Volumes

end CommunityDetection
