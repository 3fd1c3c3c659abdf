import CommunityDetection.Coarsening
import CommunityDetection.Proofs.Buckets
import CommunityDetection.Proofs.Graph.Translation
import CommunityDetection.Proofs.Graph.Weight

/-!
# Classes and coarse nodes

Every node is merged into one coarse node, and two nodes into the same one exactly if they are of
one class. The row of a coarse node tallies the rows of its members, so two coarse nodes are adjacent
exactly if some of their members are.
-/

namespace CommunityDetection.Coarsening

variable {α : Type} {G : Graph α} {classes : Assignment} {largest : Nat}

theorem getD_present (classes : Assignment) (bound id : Nat) :
    (present classes bound).getD id false = true ↔ id < bound ∧ id ∈ classes.toList := by
  have marked (listed : List Nat) (present : Array Bool) :
      (listed.foldl (fun present id => present.setIfInBounds id true) present).getD id false = true ↔
        present.getD id false = true ∨ id < present.size ∧ id ∈ listed := by
    induction listed generalizing present with
    | nil => simp
    | cons other listed ih =>
      rw [List.foldl_cons, ih, Array.size_setIfInBounds, getD_setIfInBounds]
      by_cases same : other = id
      · subst same
        by_cases inside : other < present.size <;> simp [inside]
      · simp [same, Ne.symm same]
  rw [present, marked, getD_replicate]
  simp

theorem mem_ids {bound id : Nat} : id ∈ ids classes bound ↔
    id < bound ∧ ∃ node < classes.size, classes.of node = id := by
  have listed : id ∈ classes.toList ↔ ∃ node < classes.size, classes.of node = id := by
    rw [Array.mem_toList_iff, Array.mem_iff_getElem]
    constructor
    · rintro ⟨node, inside, rfl⟩
      exact ⟨node, inside, by simp [Assignment.of, inside]⟩
    · rintro ⟨node, inside, rfl⟩
      exact ⟨node, inside, by simp [Assignment.of, inside]⟩
  rw [ids, List.mem_filter, List.mem_range, getD_present, listed]
  tauto

theorem nodup_ids (classes : Assignment) (bound : Nat) : (ids classes bound).Nodup :=
  List.nodup_range.filter _

@[simp] theorem size_members (classes : Assignment) (mapped : Array (Option Nat)) (count : Nat) :
    (members classes mapped count).size = count := Buckets.size_arrange count 0 _

theorem keyed_filterMap (mapped : Array (Option Nat)) (pairs : List (Nat × Nat)) (coarse : Nat) :
    Buckets.keyed (pairs.filterMap fun pair =>
        (mapped.getD pair.1 none).map fun coarse => (coarse, pair.2)) coarse =
      (pairs.filter fun pair => mapped.getD pair.1 none = some coarse).map Prod.snd := by
  rw [Buckets.keyed, List.filter_filterMap, List.map_filterMap, ← List.filterMap_eq_map, List.filterMap_filter]
  refine List.filterMap_congr fun pair _ => ?_
  cases found : mapped.getD pair.1 none with
  | none => simp
  | some other => by_cases same : other = coarse <;> simp [same]

theorem getD_members (classes : Assignment) (mapped : Array (Option Nat)) {count coarse : Nat}
    (bound : coarse < count) :
    (members classes mapped count).getD coarse [] =
      (List.range classes.size).filter fun node => mapped.getD (classes.of node) none = some coarse := by
  rw [members, Buckets.getD_arrange 0 _ bound, keyed_filterMap, Assignment.zipIdx_toList,
    List.filter_map, List.map_map]
  exact List.map_id _

def merged (coarse : Graph α) (classes : Assignment) (node : Nat) : Nat :=
  (coarse.toMapped? (classes.of node)).getD 0

structure Covers (classes : Assignment) (n largest : Nat) : Prop where
  size : classes.size = n
  bounded : ∀ node < n, classes.of node ≤ largest

section Nodes

variable [Scalar α]

theorem nodeCount_graph (G : Graph α) (classes : Assignment) (largest : Nat) :
    (graph G classes largest).nodeCount = (ids classes (largest + 1)).length := by
  simp [graph, Graph.nodeCount, Graph.ofRows]

theorem faithful_graph (G : Graph α) (classes : Assignment) (largest : Nat) :
    (graph G classes largest).Faithful := by
  apply Graph.faithful_ofRows
  · simp
  · simpa using nodup_ids classes (largest + 1)
  · intro id listed
    exact (mem_ids.mp (by simpa using listed)).1

theorem toOriginal_graph (G : Graph α) (classes : Assignment) (largest node : Nat) :
    (graph G classes largest).toOriginal node = (ids classes (largest + 1)).getD node 0 := by
  simp [graph, Graph.toOriginal, Graph.ofRows, Graph.translationOf]

variable {n u v : Nat}

theorem toMapped?_graph (G : Graph α) (covers : Covers classes n largest) (bound : v < n) :
    (graph G classes largest).toMapped? (classes.of v) =
      some (merged (graph G classes largest) classes v) := by
  have listed : classes.of v ∈ ids classes (largest + 1) :=
    mem_ids.mpr ⟨Nat.lt_succ_of_le (covers.bounded v bound), v, covers.size ▸ bound, rfl⟩
  obtain ⟨coarse, inside, located⟩ := List.getElem_of_mem listed
  have found : (graph G classes largest).toMapped? (classes.of v) = some coarse := by
    refine (faithful_graph G classes largest _ _).mpr ⟨by rwa [nodeCount_graph], ?_⟩
    simpa [toOriginal_graph, inside] using located
  rw [merged, found]
  rfl

theorem merged_lt (G : Graph α) (covers : Covers classes n largest) (bound : v < n) :
    merged (graph G classes largest) classes v < (graph G classes largest).nodeCount :=
  ((faithful_graph G classes largest _ _).mp (toMapped?_graph G covers bound)).1

theorem toOriginal_merged (G : Graph α) (covers : Covers classes n largest) (bound : v < n) :
    (graph G classes largest).toOriginal (merged (graph G classes largest) classes v) =
      classes.of v :=
  ((faithful_graph G classes largest _ _).mp (toMapped?_graph G covers bound)).2

theorem merged_eq_iff (G : Graph α) (covers : Covers classes n largest) (left : u < n)
    (right : v < n) :
    merged (graph G classes largest) classes u = merged (graph G classes largest) classes v ↔
      classes.of u = classes.of v := by
  constructor
  · intro same
    rw [← toOriginal_merged G covers left, same, toOriginal_merged G covers right]
  · intro same
    rw [merged, same, merged]

theorem exists_merged (G : Graph α) (covers : Covers classes n largest) {coarse : Nat}
    (bound : coarse < (graph G classes largest).nodeCount) :
    ∃ v < n, merged (graph G classes largest) classes v = coarse := by
  have inside := bound
  rw [nodeCount_graph] at inside
  obtain ⟨-, v, bounded, equal⟩ := mem_ids.mp (List.getElem_mem inside)
  have boundV : v < n := covers.size ▸ bounded
  refine ⟨v, boundV, (faithful_graph G classes largest).toOriginal_injective
    (merged_lt G covers boundV) bound ?_⟩
  rw [toOriginal_merged G covers boundV, toOriginal_graph, equal]
  simp [inside]

theorem nodeCount_graph_le_size (G : Graph α) (classes : Assignment) (largest : Nat) :
    (graph G classes largest).nodeCount ≤ classes.size := by
  have listed : ids classes (largest + 1) ⊆ (List.range classes.size).map classes.of := by
    intro id member
    obtain ⟨-, v, bound, equal⟩ := mem_ids.mp member
    exact List.mem_map.mpr ⟨v, List.mem_range.mpr bound, equal⟩
  rw [nodeCount_graph]
  simpa using ((nodup_ids classes (largest + 1)).subperm listed).length_le

theorem nodeCount_graph_le (G : Graph α) (covers : Covers classes n largest) :
    (graph G classes largest).nodeCount ≤ n :=
  (nodeCount_graph_le_size G classes largest).trans_eq covers.size

theorem row_graph (G : Graph α) (covers : Covers classes n largest) {coarse : Nat}
    (bound : coarse < (graph G classes largest).nodeCount) :
    (graph G classes largest).row coarse =
      Tally.ofPairsSorted (((List.range n).filter fun node =>
          merged (graph G classes largest) classes node = coarse).flatMap fun node =>
        (G.row node).map fun entry => (merged (graph G classes largest) classes entry.1, entry.2)) := by
  let mapped := (Graph.translationOf (ids classes (largest + 1)).toArray (largest + 1)).mapped
  let all := members classes mapped (ids classes (largest + 1)).length
  have inside : coarse < (ids classes (largest + 1)).length := by rwa [← nodeCount_graph G]
  have row : (graph G classes largest).row coarse =
      Tally.ofPairsSorted (relationships G classes mapped (all.getD coarse [])) := by
    simp [graph, Graph.row, Graph.ofRows, inside, all, mapped]
  have listed : all.getD coarse [] = (List.range n).filter fun node =>
      merged (graph G classes largest) classes node = coarse := by
    rw [getD_members classes mapped inside, covers.size]
    refine List.filter_congr fun node inRange => ?_
    have found : mapped.getD (classes.of node) none = _ :=
      toMapped?_graph G covers (List.mem_range.mp inRange)
    simp only [found, Option.some_inj]
  rw [row, listed]
  rfl

theorem adjacent_graph (covers : Covers classes G.nodeCount largest)
    {coarse other : Nat} :
    (graph G classes largest).Adjacent coarse other ↔ ∃ u v, G.Adjacent u v ∧
      merged (graph G classes largest) classes u = coarse ∧
      merged (graph G classes largest) classes v = other := by
  have keys (inside : coarse < (graph G classes largest).nodeCount) :
      (graph G classes largest).Adjacent coarse other ↔
        other ∈ ((graph G classes largest).row coarse).map Prod.fst := by
    simp [Graph.Adjacent, List.mem_map]
  constructor
  · intro adjacent
    have bound := adjacent.lt_left
    rw [keys bound, row_graph G covers bound, Tally.mem_keys_ofPairsSorted] at adjacent
    obtain ⟨pair, member, rfl⟩ := List.mem_map.mp adjacent
    obtain ⟨u, inRange, inRow⟩ := List.mem_flatMap.mp member
    obtain ⟨entry, listed, rfl⟩ := List.mem_map.mp inRow
    exact ⟨u, entry.1, ⟨entry, listed, rfl⟩, by simpa using (List.mem_filter.mp inRange).2, rfl⟩
  · rintro ⟨u, v, adjacent, rfl, rfl⟩
    have bound := merged_lt G covers adjacent.lt_left
    rw [keys bound, row_graph G covers bound, Tally.mem_keys_ofPairsSorted]
    obtain ⟨entry, listed, rfl⟩ := adjacent
    refine List.mem_map.mpr ⟨(merged (graph G classes largest) classes entry.1, entry.2), ?_, rfl⟩
    refine List.mem_flatMap.mpr ⟨u, List.mem_filter.mpr ⟨?_, by simp⟩, List.mem_map.mpr ⟨entry, listed, rfl⟩⟩
    exact List.mem_range.mpr (Graph.Adjacent.lt_left ⟨entry, listed, rfl⟩)

theorem closed_graph (closed : G.Closed) (covers : Covers classes G.nodeCount largest) :
    (graph G classes largest).Closed := by
  intro coarse entry member
  obtain ⟨u, v, adjacent, -, equal⟩ := (adjacent_graph covers).mp ⟨entry, member, rfl⟩
  rw [← equal]
  exact merged_lt G covers (adjacent.lt_right closed)

end Nodes

end CommunityDetection.Coarsening
