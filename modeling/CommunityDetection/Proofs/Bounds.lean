import CommunityDetection.Proofs.Graph.Unit
import CommunityDetection.Proofs.Quality

/-!
# Bounds on the quality of a partition

No weight or volume is negative, so the quality of a partition lies between the weight of the loops less
`gamma` times the square of the total volume, and the total weight. On a graph built from edges the total
weight is the total volume and the weight of the loops that the volumes leave out. That weight is the only
one that can carry modularity out of its scale (`modularity_bounds`).
-/

namespace CommunityDetection
open Finset

variable {K : Type} [Field K] [LinearOrder K] [IsStrictOrderedRing K]

section Quality

variable {n : Nat} {weight : Nat → Nat → K} {volume : Nat → K} {gamma : K}

theorem quality_le (weights : ∀ u v, 0 ≤ weight u v) (volumes : ∀ v < n, 0 ≤ volume v)
    (resolution : 0 ≤ gamma) (community : Nat → Nat) :
    quality n weight volume gamma community ≤ ∑ u ∈ range n, ∑ v ∈ range n, weight u v := by
  refine sum_le_sum fun u inU => sum_le_sum fun v inV => ?_
  have expected : 0 ≤ gamma * volume u * volume v :=
    mul_nonneg (mul_nonneg resolution (volumes u (mem_range.mp inU))) (volumes v (mem_range.mp inV))
  split
  · exact sub_le_self _ expected
  · exact weights u v

theorem le_quality (weights : ∀ u v, 0 ≤ weight u v) (volumes : ∀ v < n, 0 ≤ volume v)
    (resolution : 0 ≤ gamma) (community : Nat → Nat) :
    (∑ v ∈ range n, weight v v) - gamma * (∑ v ∈ range n, volume v) ^ 2 ≤
      quality n weight volume gamma community := by
  have loops : (∑ v ∈ range n, weight v v) =
      ∑ u ∈ range n, ∑ v ∈ range n, if u = v then weight u v else 0 :=
    sum_congr rfl fun u inU => by rw [sum_ite_eq, if_pos inU]
  have expected : gamma * (∑ v ∈ range n, volume v) ^ 2 =
      ∑ u ∈ range n, ∑ v ∈ range n, gamma * volume u * volume v := by
    rw [pow_two, sum_mul_sum, mul_sum]
    exact sum_congr rfl fun u _ => by simp only [mul_sum, mul_assoc]
  rw [loops, expected, ← sum_sub_distrib]
  refine sum_le_sum fun u inU => ?_
  rw [← sum_sub_distrib]
  refine sum_le_sum fun v inV => ?_
  have nonneg : 0 ≤ gamma * volume u * volume v :=
    mul_nonneg (mul_nonneg resolution (volumes u (mem_range.mp inU))) (volumes v (mem_range.mp inV))
  by_cases same : u = v
  · rw [if_pos same, if_pos (congrArg community same), bond]
  · rw [if_neg same]
    split
    · exact sub_le_sub_right (weights u v) _
    · exact sub_nonpos_of_le nonneg

end Quality

namespace Graph

section Loops

variable {K : Type} [Field K] {G : Graph K} {countLoops : Bool}

def uncounted (G : Graph K) (countLoops : Bool) : K :=
  if countLoops then 0 else ∑ v ∈ range G.nodeCount, G.weight v v

theorem uncounted_eq_zero (none : countLoops = true ∨ ∀ v, ¬G.Adjacent v v) :
    G.uncounted countLoops = 0 := by
  rcases none with counted | loopless
  · exact if_pos counted
  · unfold uncounted
    split
    · rfl
    · exact sum_eq_zero fun v _ => weight_of_not_adjacent (loopless v)

end Loops

variable {G : Graph K} {countLoops : Bool}

theorem FromEdges.weight_nonneg (given : G.FromEdges) (u v : Nat) : 0 ≤ G.weight u v := by
  obtain ⟨-, -, edges, sound, rows⟩ := given.edges
  refine List.sum_nonneg fun weight listed => ?_
  obtain ⟨entry, member, rfl⟩ := List.mem_map.mp listed
  have member := (List.mem_filter.mp member).1
  rw [rows] at member
  obtain ⟨edge, listed, contributed⟩ := List.mem_flatMap.mp member
  have positive := (sound edge listed).2.le
  rcases Edge.mem_entries.mp contributed with ⟨-, rfl⟩ | ⟨-, -, rfl⟩
  · exact positive
  · exact positive

theorem FromEdges.volume_eq (given : G.FromEdges) (countLoops : Bool) (node : Nat) :
    G.volume countLoops node =
      ∑ v ∈ range G.nodeCount with countLoops = true ∨ v ≠ node, G.weight node v := by
  have counted : G.asWeighted.volume countLoops node = G.volume countLoops node := by
    cases weighted : G.weighted with
    | true =>
      have same : G.asWeighted = G := by rw [asWeighted, ← weighted]
      rw [same]
    | false =>
      exact (given.unit weighted).volume_asWeighted (Scalar.counts_exact _)
        (Nat.lt_succ_self G.relationshipCount) node
  have added : G.asWeighted.countsDegrees countLoops = false := rfl
  have listed : ((G.asWeighted.row node).filter fun entry => countLoops || entry.1 != node) =
      (G.row node).filter fun entry => countLoops = true ∨ entry.1 ≠ node := by
    refine List.filter_congr fun entry _ => ?_
    rw [Bool.decide_or, Bool.decide_eq_true, decide_not, bne, beq_eq_decide]
  rw [← counted, volume, added, if_neg Bool.false_ne_true]
  dsimp only
  rw [listed, Scalar.total_eq_sum]
  exact sum_row_filter given.closed node fun v => countLoops = true ∨ v ≠ node

theorem FromEdges.sum_weight (given : G.FromEdges) (countLoops : Bool) :
    (∑ u ∈ range G.nodeCount, ∑ v ∈ range G.nodeCount, G.weight u v) =
      (∑ v ∈ range G.nodeCount, G.volume countLoops v) + G.uncounted countLoops := by
  simp only [given.volume_eq]
  cases countLoops with
  | true => simp [uncounted]
  | false =>
    rw [uncounted, if_neg (by decide), ← sum_add_distrib]
    refine sum_congr rfl fun u inU => ?_
    simp only [Bool.false_eq_true, false_or]
    rw [filter_ne', sum_erase_add _ _ inU]

theorem FromEdges.volume_nonneg (given : G.FromEdges) (countLoops : Bool) (node : Nat) :
    0 ≤ G.volume countLoops node := by
  rw [given.volume_eq]
  exact sum_nonneg fun v _ => given.weight_nonneg node v

theorem FromEdges.uncounted_nonneg (given : G.FromEdges) (countLoops : Bool) :
    0 ≤ G.uncounted countLoops := by
  cases countLoops with
  | true => exact le_of_eq (if_pos rfl).symm
  | false =>
    rw [uncounted, if_neg Bool.false_ne_true]
    exact sum_nonneg fun v _ => given.weight_nonneg v v

theorem FromEdges.uncounted_le (given : G.FromEdges) (countLoops : Bool) :
    G.uncounted countLoops ≤ ∑ v ∈ range G.nodeCount, G.weight v v := by
  cases countLoops with
  | true => exact sum_nonneg fun v _ => given.weight_nonneg v v
  | false => exact le_rfl

/-- Modularity without the weight of the uncounted loops lies between minus the resolution and one. -/
theorem FromEdges.modularity_bounds (given : G.FromEdges) {volume : Nat → K}
    (volumes : ∀ v < G.nodeCount, volume v = G.volume countLoops v) {coefficient gamma : K}
    (positive : 0 < coefficient) (normal : coefficient * ∑ v ∈ range G.nodeCount, volume v ≤ 1)
    (resolution : 0 ≤ gamma) (community : Nat → Nat) :
    -gamma ≤ coefficient * quality G.nodeCount G.weight volume (gamma * coefficient) community -
        coefficient * G.uncounted countLoops ∧
      coefficient * quality G.nodeCount G.weight volume (gamma * coefficient) community -
        coefficient * G.uncounted countLoops ≤ 1 := by
  have nonneg : ∀ v < G.nodeCount, 0 ≤ volume v := fun v bound =>
    volumes v bound ▸ given.volume_nonneg countLoops v
  have scaled : 0 ≤ gamma * coefficient := mul_nonneg resolution positive.le
  have total : 0 ≤ coefficient * ∑ v ∈ range G.nodeCount, volume v :=
    mul_nonneg positive.le (sum_nonneg fun v inV => nonneg v (mem_range.mp inV))
  have least := le_quality given.weight_nonneg nonneg scaled community
  have most := quality_le given.weight_nonneg nonneg scaled community
  rw [given.sum_weight countLoops, ← sum_congr rfl fun v inV => volumes v (mem_range.mp inV)] at most
  rw [← mul_sub]
  constructor
  · calc -gamma ≤ -(gamma * (coefficient * ∑ v ∈ range G.nodeCount, volume v) ^ 2) :=
          neg_le_neg (mul_le_of_le_one_right resolution (pow_le_one₀ total normal))
      _ = coefficient * -(gamma * coefficient * (∑ v ∈ range G.nodeCount, volume v) ^ 2) := by ring
      _ ≤ _ := mul_le_mul_of_nonneg_left (by linarith [given.uncounted_le countLoops]) positive.le
  · exact (mul_le_mul_of_nonneg_left (sub_le_iff_le_add.mpr most) positive.le).trans normal

end Graph

end CommunityDetection
