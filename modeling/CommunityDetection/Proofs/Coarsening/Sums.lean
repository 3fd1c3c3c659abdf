import CommunityDetection.Proofs.Coarsening.Classes
import CommunityDetection.Proofs.Quality

/-!
# Coarse weights are sums

In exact arithmetic the weight between two coarse nodes is the summed weight between their members,
and that within a coarse node becomes its loop. So coarse graphs are symmetric, and partitions of
them have the quality of the partitions that they induce (`merges_graph`).
-/

namespace CommunityDetection.Coarsening
open Finset

variable {K : Type} [Field K] [LinearOrder K] {G : Graph K} {classes : Assignment} {largest : Nat}

theorem sum_map_filter_range {M : Type} [AddCommMonoid M] (n : Nat) (p : Nat → Prop) [DecidablePred p]
    (f : Nat → M) : (((List.range n).filter p).map f).sum = ∑ i ∈ range n with p i, f i := by
  rw [← List.sum_toFinset _ (List.nodup_range.filter _), List.toFinset_filter, List.toFinset_range]
  simp only [decide_eq_true_eq]

theorem weight_graph (closed : G.Closed) (covers : Covers classes G.nodeCount largest) {coarse : Nat}
    (bound : coarse < (graph G classes largest).nodeCount) (other : Nat) :
    (graph G classes largest).weight coarse other =
      ∑ u ∈ range G.nodeCount with merged (graph G classes largest) classes u = coarse,
        ∑ v ∈ range G.nodeCount with merged (graph G classes largest) classes v = other,
          G.weight u v := by
  have renamed (u : Nat) :
      weightAt ((G.row u).map fun entry => (merged (graph G classes largest) classes entry.1, entry.2))
          other =
        ∑ v ∈ range G.nodeCount with merged (graph G classes largest) classes v = other,
          G.weight u v := by
    rw [← Graph.sum_row_filter closed, weightAt, List.filter_map, List.map_map]
    rfl
  rw [Graph.weight, row_graph G covers bound, Tally.weightAt_ofPairsSorted, weightAt_flatMap,
    sum_map_filter_range]
  exact sum_congr rfl fun u _ => renamed u

theorem symmetric_graph (closed : G.Closed) (symmetric : G.Symmetric)
    (covers : Covers classes G.nodeCount largest) : (graph G classes largest).Symmetric := by
  have outside (a b : Nat) (beyond : ¬a < (graph G classes largest).nodeCount) :
      (graph G classes largest).weight a b = 0 ∧ (graph G classes largest).weight b a = 0 := by
    constructor
    · exact Graph.weight_of_not_adjacent fun adjacent => beyond adjacent.lt_left
    · exact Graph.weight_of_not_adjacent fun adjacent => beyond (adjacent.lt_right (closed_graph closed covers))
  intro a b
  by_cases boundA : a < (graph G classes largest).nodeCount
  · by_cases boundB : b < (graph G classes largest).nodeCount
    · rw [weight_graph closed covers boundA, weight_graph closed covers boundB, sum_comm]
      exact sum_congr rfl fun u _ => sum_congr rfl fun v _ => symmetric v u
    · rw [(outside b a boundB).1, (outside b a boundB).2]
  · rw [(outside a b boundA).1, (outside a b boundA).2]

theorem merges_graph (closed : G.Closed) (covers : Covers classes G.nodeCount largest)
    {volume coarseVolume : Nat → K}
    (volumes : ∀ coarse < (graph G classes largest).nodeCount, coarseVolume coarse =
      ∑ v ∈ range G.nodeCount with merged (graph G classes largest) classes v = coarse, volume v) :
    Merges G.nodeCount (graph G classes largest).nodeCount (merged (graph G classes largest) classes)
      G.weight (graph G classes largest).weight volume coarseVolume where
  maps _ bound := merged_lt G covers bound
  weights _ bound b _ := weight_graph closed covers bound b
  volumes := volumes

end CommunityDetection.Coarsening
