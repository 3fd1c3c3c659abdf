import CommunityDetection.Graph.Basic
import CommunityDetection.Proofs.Tally

/-!
# Weights between nodes

The relationships of a graph as a relation between its nodes and as a matrix of summed weights.
-/

namespace CommunityDetection.Graph

section Relationships

variable {α : Type}

/-- Every relationship leads to a node. -/
def Closed (G : Graph α) : Prop := ∀ node, ∀ entry ∈ G.row node, entry.1 < G.nodeCount

def Adjacent (G : Graph α) (u v : Nat) : Prop := ∃ entry ∈ G.row u, entry.1 = v

theorem row_of_le {G : Graph α} {node : Nat} (outside : G.nodeCount ≤ node) : G.row node = [] := by
  have none : G.rows[node]? = none := by simpa [nodeCount] using outside
  simp [row, none]

theorem closed_of_forall_lt {G : Graph α}
    (inside : ∀ node < G.nodeCount, ∀ entry ∈ G.row node, entry.1 < G.nodeCount) : G.Closed := by
  intro node entry member
  by_cases bound : node < G.nodeCount
  · exact inside node bound entry member
  · rw [row_of_le (Nat.le_of_not_lt bound)] at member
    cases member

theorem Adjacent.lt_left {G : Graph α} {u v : Nat} (adjacent : G.Adjacent u v) : u < G.nodeCount := by
  by_contra outside
  obtain ⟨entry, member, -⟩ := adjacent
  rw [row_of_le (Nat.le_of_not_lt outside)] at member
  cases member

theorem Adjacent.lt_right {G : Graph α} (closed : G.Closed) {u v : Nat} (adjacent : G.Adjacent u v) :
    v < G.nodeCount := by
  obtain ⟨entry, member, rfl⟩ := adjacent
  exact closed u entry member

end Relationships

section Weights

variable {K : Type} [Field K]

def weight (G : Graph K) (u v : Nat) : K := weightAt (G.row u) v

def Symmetric (G : Graph K) : Prop := ∀ u v, G.weight u v = G.weight v u

theorem weight_of_not_adjacent {G : Graph K} {u v : Nat} (apart : ¬G.Adjacent u v) :
    G.weight u v = 0 := by
  apply weightAt_of_not_mem
  intro member
  obtain ⟨entry, inRow, equal⟩ := List.mem_map.mp member
  exact apart ⟨entry, inRow, equal⟩

theorem sum_row_filter {G : Graph K} (closed : G.Closed) (node : Nat) (p : Nat → Prop)
    [DecidablePred p] :
    (((G.row node).filter fun entry => p entry.1).map Prod.snd).sum =
      ∑ v ∈ (Finset.range G.nodeCount).filter p, G.weight node v :=
  sum_filter_eq_sum_weightAt (closed node) p

end Weights

end CommunityDetection.Graph
