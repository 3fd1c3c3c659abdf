import CommunityDetection.Proofs.Coarsening.Sums
import CommunityDetection.Proofs.Graph.Build

/-!
# Contracting classes

The coarse graph of an assignment is its weighted quotient. Its nodes are the classes in use in the order of
their ids, and every row lists each class once that a member has a relationship to (`Contracts`). In exact
arithmetic a weight is the sum over the relationships between two classes, so that row sums and the total
weight are kept (`ContractsWeights`).
-/

namespace CommunityDetection.Coarsening
open Finset

section Nodes

variable {α : Type} {G H : Graph α} {classes : Assignment} {largest u a b : Nat}

def originals (H : Graph α) : List Nat := (List.range H.nodeCount).map H.toOriginal

/-- The nodes of a graph are the classes in use of another one, and its relationships those between their
members. -/
structure Contracts (G : Graph α) (classes : Assignment) (H : Graph α) : Prop where
  increasing : (originals H).Pairwise (· < ·)
  used : ∀ id, id ∈ originals H ↔ ∃ node < G.nodeCount, classes.of node = id
  mapped : ∀ a < H.nodeCount, H.toMapped? (H.toOriginal a) = some a
  original : ∀ id a, H.toMapped? id = some a → a < H.nodeCount ∧ H.toOriginal a = id
  unmapped : ∀ id, (∀ node < G.nodeCount, classes.of node ≠ id) → H.toMapped? id = none
  sorted : ∀ a, (H.row a).Pairwise fun first second => first.1 < second.1
  closed : ∀ a, ∀ entry ∈ H.row a, entry.1 < H.nodeCount
  related : ∀ a < H.nodeCount, ∀ b < H.nodeCount, (b ∈ (H.row a).map Prod.fst ↔
    ∃ u v, G.Adjacent u v ∧ classes.of u = H.toOriginal a ∧ classes.of v = H.toOriginal b)

variable [Scalar α]

theorem originals_graph (G : Graph α) (classes : Assignment) (largest : Nat) :
    originals (graph G classes largest) = ids classes (largest + 1) := by
  apply List.ext_getElem
  · simp [originals, nodeCount_graph]
  · intro node left right
    simp [originals, toOriginal_graph, right]

theorem pairwise_ids (classes : Assignment) (bound : Nat) : (ids classes bound).Pairwise (· < ·) :=
  List.pairwise_lt_range.filter _

theorem of_eq_toOriginal_iff (covers : Covers classes G.nodeCount largest) (bound : u < G.nodeCount)
    (inside : a < (graph G classes largest).nodeCount) :
    classes.of u = (graph G classes largest).toOriginal a ↔
      merged (graph G classes largest) classes u = a := by
  rw [← toOriginal_merged G covers bound]
  constructor
  · exact (faithful_graph G classes largest).toOriginal_injective (merged_lt G covers bound) inside
  · exact congrArg _

theorem contracts_graph (closed : G.Closed) (covers : Covers classes G.nodeCount largest) :
    Contracts G classes (graph G classes largest) := by
  have faithful := faithful_graph G classes largest
  have used (id : Nat) : id ∈ originals (graph G classes largest) ↔
      ∃ node < G.nodeCount, classes.of node = id := by
    rw [originals_graph, mem_ids, covers.size]
    refine and_iff_right_of_imp ?_
    rintro ⟨node, bound, rfl⟩
    exact Nat.lt_succ_of_le (covers.bounded node bound)
  constructor
  · rw [originals_graph]
    exact pairwise_ids classes _
  · exact used
  · exact fun a inside => faithful.toMapped?_toOriginal inside
  · exact fun id a found => (faithful id a).mp found
  · intro id unused
    by_contra found
    obtain ⟨a, found⟩ := Option.ne_none_iff_exists'.mp found
    obtain ⟨inside, same⟩ := (faithful id a).mp found
    obtain ⟨node, bound, member⟩ :=
      (used id).mp (List.mem_map.mpr ⟨a, List.mem_range.mpr inside, same⟩)
    exact unused node bound member
  · intro a
    by_cases inside : a < (graph G classes largest).nodeCount
    · rw [row_graph G covers inside]
      exact Tally.sorted_ofPairsSorted _
    · rw [Graph.row_of_le (Nat.le_of_not_lt inside)]
      exact List.Pairwise.nil
  · exact closed_graph closed covers
  · intro a insideA b insideB
    have edge : b ∈ ((graph G classes largest).row a).map Prod.fst ↔
        (graph G classes largest).Adjacent a b := List.mem_map
    rw [edge, adjacent_graph covers]
    refine exists₂_congr fun u v => and_congr_right fun adjacent => ?_
    rw [of_eq_toOriginal_iff covers adjacent.lt_left insideA,
      of_eq_toOriginal_iff covers (adjacent.lt_right closed) insideB]

end Nodes

section Weights

variable {K : Type} [Field K] {G H : Graph K} {classes : Assignment} {largest a b u : Nat}

def rowSum (G : Graph K) (u : Nat) : K := ((G.row u).map Prod.snd).sum

theorem rowSum_eq (closed : G.Closed) (u : Nat) : rowSum G u = ∑ v ∈ range G.nodeCount, G.weight u v := by
  simpa [rowSum] using Graph.sum_row_filter closed u fun _ => True

/-- Weights are sums over the relationships between the members of two classes, so no weight is lost. -/
structure ContractsWeights (G : Graph K) (classes : Assignment) (H : Graph K) : Prop where
  weights : ∀ a, ∀ entry ∈ H.row a, entry.2 =
    ∑ u ∈ range G.nodeCount with classes.of u = H.toOriginal a,
      (((G.row u).filter fun relationship =>
        classes.of relationship.1 = H.toOriginal entry.1).map Prod.snd).sum
  symmetric : G.Symmetric → H.Symmetric
  rows : ∀ a < H.nodeCount,
    rowSum H a = ∑ u ∈ range G.nodeCount with classes.of u = H.toOriginal a, rowSum G u
  total : ∑ a ∈ range H.nodeCount, rowSum H a = ∑ u ∈ range G.nodeCount, rowSum G u

variable [LinearOrder K]

theorem filter_merged (covers : Covers classes G.nodeCount largest)
    (inside : a < (graph G classes largest).nodeCount) :
    (range G.nodeCount).filter (classes.of · = (graph G classes largest).toOriginal a) =
      (range G.nodeCount).filter (merged (graph G classes largest) classes · = a) :=
  filter_congr fun _ inRange => of_eq_toOriginal_iff covers (mem_range.mp inRange) inside

theorem rowSum_graph (closed : G.Closed) (covers : Covers classes G.nodeCount largest)
    (inside : a < (graph G classes largest).nodeCount) : rowSum (graph G classes largest) a =
      ∑ u ∈ range G.nodeCount with merged (graph G classes largest) classes u = a, rowSum G u := by
  rw [rowSum_eq (closed_graph closed covers)]
  simp only [weight_graph closed covers inside]
  rw [sum_comm]
  refine sum_congr rfl fun u _ => ?_
  rw [rowSum_eq closed]
  exact sum_fiberwise_of_maps_to
    (fun v inRange => mem_range.mpr (merged_lt G covers (mem_range.mp inRange))) _

theorem contractsWeights_graph (closed : G.Closed) (covers : Covers classes G.nodeCount largest) :
    ContractsWeights G classes (graph G classes largest) := by
  refine ⟨fun a entry member => ?_, fun symmetric => symmetric_graph closed symmetric covers,
    fun a inside => ?_, ?_⟩
  · have inside : a < (graph G classes largest).nodeCount := Graph.Adjacent.lt_left ⟨entry, member, rfl⟩
    have target := closed_graph closed covers a entry member
    have sorted : Tally.Sorted ((graph G classes largest).row a) := (contracts_graph closed covers).sorted a
    rw [← sorted.weightAt_of_mem member]
    simp only [Graph.sum_row_filter closed _ (classes.of · = (graph G classes largest).toOriginal entry.1),
      filter_merged covers inside, filter_merged covers target]
    exact weight_graph closed covers inside entry.1
  · rw [filter_merged covers inside]
    exact rowSum_graph closed covers inside
  · rw [sum_congr rfl fun a inRange => rowSum_graph closed covers (mem_range.mp inRange)]
    exact sum_fiberwise_of_maps_to
      (fun v inRange => mem_range.mpr (merged_lt G covers (mem_range.mp inRange))) _

end Weights

/-! ## Coarse graphs are quotients -/

/-- Whatever the weights are, the coarse graph of classes with ids up to a bound has the classes in use as its
nodes and the relationships between their members, each once, as its own. In exact arithmetic the weights of
these are added up, whatever the classes are. -/
theorem graph_contracts :
    (∀ (α : Type) [Scalar α] (G : Graph α) (classes : Assignment) (largest : Nat), G.Closed →
      Covers classes G.nodeCount largest → Contracts G classes (graph G classes largest)) ∧
    ∀ (K : Type) [Field K] [LinearOrder K] (G : Graph K) (classes : Assignment) (largest : Nat), G.Closed →
      Covers classes G.nodeCount largest → ContractsWeights G classes (graph G classes largest) :=
  ⟨fun _ _ _ _ _ closed covers => contracts_graph closed covers,
    fun _ _ _ _ _ _ closed covers => contractsWeights_graph closed covers⟩

theorem graph_contracts_loopedPath :
    let coarse := graph Graph.loopedPath #[7, 2, 7, 2] 9
    originals coarse = [2, 7] ∧ coarse.row 0 = [(0, 1), (1, 3)] ∧ coarse.row 1 = [(0, 3)] ∧
      Contracts Graph.loopedPath #[7, 2, 7, 2] coarse ∧
      ContractsWeights Graph.loopedPath #[7, 2, 7, 2] coarse := by
  have covers : Covers #[7, 2, 7, 2] Graph.loopedPath.nodeCount 9 := by
    constructor <;> decide +kernel
  exact ⟨by decide +kernel, by decide +kernel, by decide +kernel,
    graph_contracts.1 ℚ _ _ _ Graph.fromEdges_loopedPath.closed covers,
    graph_contracts.2 ℚ _ _ _ Graph.fromEdges_loopedPath.closed covers⟩

end CommunityDetection.Coarsening
