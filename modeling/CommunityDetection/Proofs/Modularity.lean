import CommunityDetection.Modularity
import CommunityDetection.Proofs.Graph.Weight
import CommunityDetection.Proofs.Quality
import CommunityDetection.Proofs.Volume

/-!
# Modularity is the quality of the partition

In exact arithmetic the modularity computed from community volumes is the quality of the partition,
summed over pairs of nodes, times the coefficient (`modularity_eq_quality`, `modularity_eq_pairs`). It
does not depend on how the nodes are cut into spans.
-/

namespace CommunityDetection.Graph
open Finset

variable {K : Type} [Field K]

theorem sum_intraWeights {G : Graph K} (closed : G.Closed) (assignment : Assignment) (node : Nat) :
    (G.intraWeights assignment node).sum =
      ∑ v ∈ range G.nodeCount with assignment.of v = assignment.of node, G.weight node v := by
  rw [← sum_row_filter closed]
  simp [intraWeights, beq_eq_decide]

variable [LinearOrder K]

theorem sum_spans (G : Graph K) (assignment : Assignment) (concurrency : Nat) :
    Scalar.sum ((G.spans concurrency).map (G.intraWeight assignment)) =
      ∑ u ∈ range G.nodeCount, (G.intraWeights assignment u).sum := by
  have span : G.intraWeight assignment =
      fun s => (s.nodes.map fun node => (G.intraWeights assignment node).sum).sum := by
    funext s
    rw [intraWeight, Scalar.total_eq_sum, sum_flatMap]
  calc Scalar.sum ((G.spans concurrency).map (G.intraWeight assignment))
      = (((G.spans concurrency).flatMap Span.nodes).map fun node =>
          (G.intraWeights assignment node).sum).sum := by
        rw [Scalar.sum_eq_sum, List.map_flatMap, sum_flatMap, span]
    _ = ∑ u ∈ range G.nodeCount, (G.intraWeights assignment u).sum := by
        rw [nodes_spans, sum_map_range]

theorem sum_intraWeight {G : Graph K} (closed : G.Closed) (assignment : Assignment)
    (concurrency : Nat) :
    Scalar.sum ((G.spans concurrency).map (G.intraWeight assignment)) =
      ∑ u ∈ range G.nodeCount,
        ∑ v ∈ range G.nodeCount with assignment.of v = assignment.of u, G.weight u v :=
  (sum_spans G assignment concurrency).trans
    (sum_congr rfl fun u _ => sum_intraWeights closed assignment u)

theorem sum_squares (cells : Cells K) :
    Scalar.sum (cells.toList.map fun volume => volume * volume) =
      ∑ c ∈ range cells.size, cells.read c ^ 2 := by
  have listed : cells.toList = (List.range cells.size).map cells.read := by
    apply List.ext_getElem
    · simp
    · intro i left right
      have bound : i < cells.size := by simpa using left
      simp [Cells.read, bound]
  rw [Scalar.sum_eq_sum, listed, List.map_map, sum_map_range]
  exact sum_congr rfl fun c _ => by simp [pow_two]

/-- Whatever the ids of the communities are, with right volumes modularity is the quality on the scale of the
coefficient. -/
theorem modularity_eq_quality_of_sums {G : Graph K} (closed : G.Closed) {assignment : Assignment}
    {volumes : Cells K} {volume : Nat → K}
    (bounded : ∀ node < G.nodeCount, assignment.of node < volumes.size)
    (sums : ∀ c < volumes.size,
      volumes.read c = ∑ v ∈ range G.nodeCount with assignment.of v = c, volume v)
    (gamma coefficient : K) (concurrency : Nat) :
    G.modularity assignment volumes gamma coefficient concurrency =
      coefficient * quality G.nodeCount G.weight volume gamma assignment.of := by
  have squares : (∑ c ∈ range volumes.size, volumes.read c ^ 2) =
      ∑ c ∈ range volumes.size,
        (∑ v ∈ range G.nodeCount with assignment.of v = c, volume v) ^ 2 :=
    sum_congr rfl fun c inC => by rw [sums c (mem_range.mp inC)]
  simp only [modularity]
  rw [sum_intraWeight closed, sum_squares, squares, quality_eq_intra_sub_squares bounded]
  ring

theorem modularity_eq_quality {G : Graph K} (closed : G.Closed) {assignment : Assignment}
    {volumes : Volumes K} (sound : volumes.Sound assignment G.nodeCount)
    (bounded : ∀ node < G.nodeCount, assignment.of node < G.nodeCount) (gamma coefficient : K)
    (concurrency : Nat) :
    G.modularity assignment volumes.communities gamma coefficient concurrency =
      coefficient * quality G.nodeCount G.weight volumes.nodes.read gamma assignment.of := by
  apply modularity_eq_quality_of_sums closed
  · rw [sound.size_communities]
    exact bounded
  · rw [sound.size_communities]
    exact sound.sums

/-- Modularity, computed node by node over spans and from the volumes of communities, is the sum over all
ordered pairs of nodes in one community of the weight from the one to the other, less `gamma` times the
product of their volumes, on the scale of the coefficient. -/
theorem modularity_eq_pairs {G : Graph K} (closed : G.Closed) {assignment : Assignment}
    {volumes : Cells K} {volume : Nat → K}
    (bounded : ∀ node < G.nodeCount, assignment.of node < volumes.size)
    (sums : ∀ c < volumes.size,
      volumes.read c = ∑ v ∈ range G.nodeCount with assignment.of v = c, volume v)
    (gamma coefficient : K) (concurrency : Nat) :
    G.modularity assignment volumes gamma coefficient concurrency =
      coefficient * ∑ pair ∈ range G.nodeCount ×ˢ range G.nodeCount with
        assignment.of pair.1 = assignment.of pair.2,
          (G.weight pair.1 pair.2 - gamma * volume pair.1 * volume pair.2) := by
  rw [modularity_eq_quality_of_sums closed bounded sums, sum_filter, sum_product]
  rfl

def oneSided : Graph ℚ where
  orientation := .natural
  weighted := true
  rows := #[[(1, 2), (0, 4), (1, 3)], [(0, 1), (2, 6)], []]
  translation := none
  properties := []

theorem modularity_eq_pairs_oneSided :
    let assignment : Assignment := #[2, 2, 0]
    let volume : Nat → ℚ := fun node => node + 2
    oneSided.modularity assignment #[4, 0, 5] (1 / 41) 2 3 = 18 ∧
      (2 * ∑ pair ∈ range 3 ×ˢ range 3 with assignment.of pair.1 = assignment.of pair.2,
        (oneSided.weight pair.1 pair.2 - 1 / 41 * volume pair.1 * volume pair.2)) = 18 := by
  intro assignment volume
  have closed : oneSided.Closed := closed_of_forall_lt (by decide)
  have bounded : ∀ node < oneSided.nodeCount, assignment.of node < (#[4, 0, 5] : Cells ℚ).size := by decide
  have sums : ∀ c < (#[4, 0, 5] : Cells ℚ).size, Cells.read #[4, 0, 5] c =
      ∑ v ∈ range oneSided.nodeCount with assignment.of v = c, volume v := by decide +kernel
  have pairs := modularity_eq_pairs closed bounded sums (1 / 41) 2 3
  have value : oneSided.modularity assignment #[4, 0, 5] (1 / 41) 2 3 = 18 := by decide +kernel
  exact ⟨value, pairs.symm.trans value⟩

end CommunityDetection.Graph
