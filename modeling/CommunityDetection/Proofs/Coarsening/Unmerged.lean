import CommunityDetection.Proofs.Coarsening.Classes
import CommunityDetection.Proofs.Coarsening.Handover
import CommunityDetection.Proofs.Graph.Storage

/-!
# Coarse graphs of nodes that are all alone

Where every node is a class of its own, the coarse nodes are the nodes (`merged_singletons`), and their rows are
those of the graph with the weights to a node added up (`row_graph_singletons`). An assignment that names
communities by their first nodes is then handed over as it is (`Carried.of_eq_origin`).
-/

namespace CommunityDetection.Coarsening

variable {α : Type} [Scalar α] {G : Graph α} {n largest v : Nat} {orientation : Orientation} {edges : List (Edge α)}

omit [Scalar α] in
theorem ids_singletons (covers : Covers (.singletons n) n largest) :
    ids (.singletons n) (largest + 1) = List.range n := by
  refine List.Pairwise.eq_of_mem_iff (List.pairwise_lt_range.filter _) List.pairwise_lt_range fun id => ?_
  rw [List.mem_range]
  refine mem_ids.trans ⟨?_, fun bound => ?_⟩
  · rintro ⟨-, node, bound, rfl⟩
    rw [Assignment.size_singletons] at bound
    rwa [Assignment.of_singletons bound]
  · have own := Assignment.of_singletons bound
    have below := covers.bounded id bound
    rw [own] at below
    exact ⟨Nat.lt_succ_of_le below, id, (Assignment.size_singletons n).symm ▸ bound, own⟩

theorem nodeCount_graph_singletons (G : Graph α) (covers : Covers (.singletons n) n largest) :
    (graph G (.singletons n) largest).nodeCount = n := by
  rw [nodeCount_graph, ids_singletons covers, List.length_range]

theorem toOriginal_singletons (G : Graph α) (covers : Covers (.singletons n) n largest) (bound : v < n) :
    (graph G (.singletons n) largest).toOriginal v = v := by
  rw [toOriginal_graph, ids_singletons covers]
  simp [bound]

theorem merged_singletons (G : Graph α) (covers : Covers (.singletons n) n largest) (bound : v < n) :
    merged (graph G (.singletons n) largest) (.singletons n) v = v := by
  have inside := merged_lt G covers bound
  rw [nodeCount_graph_singletons G covers] at inside
  have original := toOriginal_merged G covers bound
  rwa [toOriginal_singletons G covers inside, Assignment.of_singletons bound] at original

theorem row_graph_singletons (closed : G.Closed) (covers : Covers (.singletons G.nodeCount) G.nodeCount largest)
    (v : Nat) : (graph G (.singletons G.nodeCount) largest).row v = Tally.ofPairsSorted (G.row v) := by
  have nodes := nodeCount_graph_singletons G covers
  by_cases bound : v < G.nodeCount
  · have alone : ((List.range G.nodeCount).filter fun node =>
        merged (graph G (.singletons G.nodeCount) largest) (.singletons G.nodeCount) node = v) = [v] := by
      refine List.Pairwise.eq_of_mem_iff (List.pairwise_lt_range.filter _) (List.pairwise_singleton _ v) fun node => ?_
      rw [List.mem_filter, List.mem_range, decide_eq_true_iff, List.mem_singleton]
      constructor
      · rintro ⟨inside, same⟩
        rwa [merged_singletons G covers inside] at same
      · rintro rfl
        exact ⟨bound, merged_singletons G covers bound⟩
    rw [row_graph G covers (bound.trans_eq nodes.symm), alone, List.flatMap_singleton]
    congr 1
    refine (List.map_congr_left fun entry member => ?_).trans (List.map_id _)
    rw [merged_singletons G covers (closed v entry member)]
    rfl
  · rw [Graph.row_of_le (nodes.trans_le (Nat.le_of_not_lt bound)), Graph.row_of_le (Nat.le_of_not_lt bound)]
    rfl

theorem stores_graph_singletons (closed : G.Closed) (stores : G.Stores n orientation true edges)
    (sorted : ∀ v, Tally.Sorted (G.row v)) (covers : Covers (.singletons n) n largest) :
    (graph G (.singletons n) largest).Stores n orientation true edges := by
  obtain rfl := stores.nodes
  refine ⟨nodeCount_graph_singletons G covers, stores.oriented, rfl, fun v => ?_⟩
  rw [row_graph_singletons closed covers, (sorted v).ofPairsSorted_eq, stores.row]

theorem Carried.of_eq_origin {coarse : Graph α} {assignment : Assignment} {classVolumes : Cells α} {count : Nat}
    {handover : Handover α} (carried : Carried coarse assignment classVolumes count handover)
    (least : ∀ v < count, origin coarse assignment v ≤ v)
    (named : ∀ v < count, origin coarse assignment (origin coarse assignment v) = origin coarse assignment v)
    (bound : v < count) : handover.assignment.of v = origin coarse assignment v := by
  have below := (least v bound).trans_lt bound
  obtain ⟨inside, same⟩ := carried.name_of bound
  apply Nat.le_antisymm
  · rw [← (carried.same_iff below bound).mpr (named v bound)]
    exact carried.earliest _ below
  · rw [← same]
    exact least _ inside

end CommunityDetection.Coarsening
