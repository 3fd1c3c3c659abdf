import CommunityDetection.Proofs.Graph.Build
import CommunityDetection.Proofs.Span
import CommunityDetection.Volume

/-!
# What a graph stores of its edges

A list of edges is refused for its first edge that is not sound. Otherwise the graph stores the list exactly
(`Stores`): no entry is missing from a row and none is there twice, so the number of relationships is the
number of traversals of the edges. In an undirected graph the two directions hold the same weights
(`weightsTo_comm`), and it does not matter which end of an edge is given first (`build_stores`).
-/

namespace CommunityDetection

variable {α : Type}

namespace Edge

/-- The ends of an edge are nodes, and its weight is positive and finite. -/
def Sound [Scalar α] (n : Nat) (edge : Edge α) : Prop :=
  edge.Within n ∧ 0 < edge.weight ∧ Scalar.isFinite edge.weight = true

instance (n : Nat) (edge : Edge α) : Decidable (edge.Within n) := inferInstanceAs (Decidable (_ ∧ _))

instance [Scalar α] (n : Nat) (edge : Edge α) : Decidable (edge.Sound n) :=
  inferInstanceAs (Decidable (_ ∧ _))

def fault (n : Nat) (edge : Edge α) : InvalidInput α :=
  if edge.Within n then .weightNotPositive else .relationshipOutside edge.source edge.target n

theorem fault?_eq [Scalar α] (n : Nat) (edge : Edge α) :
    edge.fault? n = if edge.Sound n then none else some (edge.fault n) := by
  by_cases within : edge.Within n
  · have inside : ¬(n ≤ edge.source ∨ n ≤ edge.target) := by
      have ⟨source, target⟩ := within
      omega
    simp only [fault?, if_neg inside, Sound, within, true_and, fault, if_true]
  · have outside : n ≤ edge.source ∨ n ≤ edge.target := by
      unfold Within at within
      omega
    simp only [fault?, if_pos outside, Sound, within, false_and, fault, if_false]

theorem mem_traversals {orientation : Orientation} {edge : Edge α} {item : Nat × Nat × α} :
    item ∈ edge.traversals orientation ↔ item = (edge.source, edge.target, edge.weight) ∨
      (orientation = .undirected ∧ edge.source ≠ edge.target) ∧
        item = (edge.target, edge.source, edge.weight) := by
  unfold traversals
  split <;> simp_all

def reversed (edge : Edge α) : Edge α := ⟨edge.target, edge.source, edge.weight⟩

theorem Sound.reversed [Scalar α] {n : Nat} {edge : Edge α} (sound : edge.Sound n) : edge.reversed.Sound n :=
  ⟨⟨sound.1.2, sound.1.1⟩, sound.2⟩

theorem forall_mem_reversed {holds : Edge α → Prop} {before after : List (Edge α)} {edge : Edge α}
    (kept : holds edge → holds edge.reversed) (all : ∀ other ∈ before ++ edge :: after, holds other) :
    ∀ other ∈ before ++ edge.reversed :: after, holds other := by
  simp only [List.forall_mem_append, List.forall_mem_cons] at all ⊢
  exact ⟨all.1, kept all.2.1, all.2.2⟩

theorem entries_reversed (edge : Edge α) (node : Nat) :
    edge.reversed.entries .undirected node = edge.entries .undirected node := by
  unfold entries reversed
  by_cases loop : edge.source = edge.target
  · simp [loop]
  · by_cases atSource : edge.source = node
    · have notTarget : edge.target ≠ node := fun atTarget => loop (atSource.trans atTarget.symm)
      simp [atSource, notTarget]
    · by_cases atTarget : edge.target = node <;> simp [atSource, atTarget, eq_comm]

theorem weights_entries (orientation : Orientation) (u v : Nat) (edge : Edge α) :
    ((edge.entries orientation u).filter fun entry => entry.1 = v).map Prod.snd =
      if edge.source = u ∧ edge.target = v ∨
          orientation = .undirected ∧ edge.source = v ∧ edge.target = u then [edge.weight]
      else [] := by
  have entered (there : Prop) [Decidable there] (node : Nat) :
      ((if there then [(node, edge.weight)] else []).filter fun entry => entry.1 = v).map Prod.snd =
        if there ∧ node = v then [edge.weight] else [] := by
    by_cases holds : there <;> by_cases here : node = v <;> simp [holds, here]
  rw [entries, List.filter_append, List.map_append, entered, entered]
  -- A loop is no second entry, so at most one of the two is there.
  by_cases ahead : edge.source = u ∧ edge.target = v
  · have single : ¬((orientation = .undirected ∧ edge.source ≠ edge.target ∧ edge.target = u) ∧
        edge.source = v) := fun other => other.1.2.1 (other.2.trans ahead.2.symm)
    rw [if_pos ahead, if_neg single, if_pos (.inl ahead), List.append_nil]
  · by_cases behind : orientation = .undirected ∧ edge.source = v ∧ edge.target = u
    · have apart : edge.source ≠ edge.target := fun loop =>
        ahead ⟨loop.trans behind.2.2, loop.symm.trans behind.2.1⟩
      rw [if_neg ahead, if_pos ⟨⟨behind.1, apart, behind.2.2⟩, behind.2.1⟩, if_pos (.inr behind), List.nil_append]
    · rw [if_neg ahead, if_neg fun other => behind ⟨other.1.1, other.2, other.1.2.2⟩,
        if_neg (not_or.mpr ⟨ahead, behind⟩), List.append_nil]

theorem weights_flatMap_entries (orientation : Orientation) (u v : Nat) (edges : List (Edge α)) :
    ((edges.flatMap (Edge.entries orientation u)).filter fun entry => entry.1 = v).map Prod.snd =
      (edges.filter fun edge => edge.source = u ∧ edge.target = v ∨
        orientation = .undirected ∧ edge.source = v ∧ edge.target = u).map Edge.weight := by
  induction edges with
  | nil => rfl
  | cons edge edges ih =>
    rw [List.flatMap_cons, List.filter_append, List.map_append, weights_entries, ih, List.filter_cons]
    simp only [decide_eq_true_eq]
    split <;> rfl

end Edge

namespace Graph

def weightsTo (G : Graph α) (fallback : α) (u v : Nat) : List α :=
  ((G.neighbors u fallback).filter fun entry => entry.1 = v).map Prod.snd

section Faults

variable [Scalar α] {n : Nat} {orientation : Orientation} {weighted : Bool} {edges : List (Edge α)}

theorem build_ok_of_sound (sound : ∀ edge ∈ edges, edge.Sound n) :
    build n orientation weighted edges = .ok ⟨orientation, weighted, rowsOf n orientation edges, none, []⟩ := by
  have none : edges.findSome? (Edge.fault? n) = none :=
    List.findSome?_eq_none_iff.mpr fun edge member => by rw [Edge.fault?_eq, if_pos (sound edge member)]
  rw [build, none]

theorem sound_of_build_ok {G : Graph α} (built : build n orientation weighted edges = .ok G) :
    ∀ edge ∈ edges, edge.Sound n := by
  intro edge member
  unfold build at built
  cases faults : edges.findSome? (Edge.fault? n) with
  | some fault => simp [faults] at built
  | none => exact Edge.within_of_fault?_eq_none (List.findSome?_eq_none_iff.mp faults edge member)

theorem build_error_iff {error : Error α} :
    build n orientation weighted edges = .error error ↔
      ∃ before edge after, edges = before ++ edge :: after ∧ (∀ earlier ∈ before, earlier.Sound n) ∧
        ¬edge.Sound n ∧ error = .invalid (edge.fault n) := by
  have fault_none (edge : Edge α) : edge.fault? n = none ↔ edge.Sound n := by
    rw [Edge.fault?_eq]
    split <;> simp_all
  have fault_some (edge : Edge α) (fault : InvalidInput α) :
      edge.fault? n = some fault ↔ ¬edge.Sound n ∧ edge.fault n = fault := by
    rw [Edge.fault?_eq]
    split <;> simp_all
  have first (fault : InvalidInput α) : edges.findSome? (Edge.fault? n) = some fault ↔
      ∃ before edge after, edges = before ++ edge :: after ∧ (¬edge.Sound n ∧ edge.fault n = fault) ∧
        ∀ earlier ∈ before, earlier.Sound n := by
    simp only [List.findSome?_eq_some_iff, fault_none, fault_some]
  constructor
  · intro failed
    unfold build at failed
    cases faults : edges.findSome? (Edge.fault? n) with
    | none => simp [faults] at failed
    | some fault =>
      simp only [faults, Except.error.injEq] at failed
      obtain ⟨before, edge, after, split, ⟨unsound, rfl⟩, sound⟩ := (first fault).mp faults
      exact ⟨before, edge, after, split, sound, unsound, failed.symm⟩
  · rintro ⟨before, edge, after, split, sound, unsound, rfl⟩
    rw [build, (first _).mpr ⟨before, edge, after, split, ⟨unsound, rfl⟩, sound⟩]

end Faults

/-- A graph stores a list of edges exactly. -/
structure Stores (G : Graph α) (n : Nat) (orientation : Orientation) (weighted : Bool)
    (edges : List (Edge α)) : Prop where
  nodes : G.nodeCount = n
  oriented : G.orientation = orientation
  weights : G.weighted = weighted
  row : ∀ node, G.row node = edges.flatMap (Edge.entries orientation node)

theorem rowsOf_reversed [Scalar α] {n : Nat} {before after : List (Edge α)} {edge : Edge α}
    (within : ∀ other ∈ before ++ edge :: after, other.Within n) :
    rowsOf n .undirected (before ++ edge.reversed :: after) =
      rowsOf n .undirected (before ++ edge :: after) := by
  have turned := Edge.forall_mem_reversed And.symm within
  apply Array.ext
  · rw [size_rowsOf, size_rowsOf]
  · intro node left right
    have row : (rowsOf n .undirected (before ++ edge.reversed :: after)).getD node [] =
        (rowsOf n .undirected (before ++ edge :: after)).getD node [] := by
      rw [getD_rowsOf _ turned, getD_rowsOf _ within, List.flatMap_append, List.flatMap_append,
        List.flatMap_cons, List.flatMap_cons, Edge.entries_reversed]
    rwa [← Array.getElem_eq_getD, ← Array.getElem_eq_getD] at row

section Stores

variable {G : Graph α} {n : Nat} {orientation : Orientation} {weighted : Bool} {edges : List (Edge α)}

theorem stores_of_build_ok [Scalar α] (built : build n orientation weighted edges = .ok G) :
    G.Stores n orientation weighted edges := by
  obtain ⟨sound, rfl⟩ := build_ok built
  refine ⟨size_rowsOf n orientation edges, rfl, rfl, ?_⟩
  exact getD_rowsOf orientation fun edge member => (sound edge member).1

theorem Stores.neighbors (stores : G.Stores n orientation weighted edges) (node : Nat) (fallback : α) :
    G.neighbors node fallback = (edges.flatMap (Edge.entries orientation node)).map fun entry =>
      (entry.1, if weighted then entry.2 else fallback) := by
  rw [Graph.neighbors, stores.weights, stores.row]
  cases weighted <;> simp

theorem Stores.degree (stores : G.Stores n orientation weighted edges) (node : Nat) :
    G.degree node = (edges.flatMap (Edge.entries orientation node)).length := by
  rw [Graph.degree, stores.row]

theorem Stores.volume [Scalar α] (stores : G.Stores n orientation true edges) (node : Nat) :
    G.volume true node = Scalar.total ((edges.flatMap (Edge.entries orientation node)).map Prod.snd) := by
  have counts : G.countsDegrees true = false := by
    rw [countsDegrees, stores.weights]
    rfl
  rw [Graph.volume, counts, stores.row]
  simp

theorem Stores.relationshipCount (stores : G.Stores n orientation weighted edges)
    (within : ∀ edge ∈ edges, edge.Within n) :
    G.relationshipCount = (edges.flatMap (Edge.traversals orientation)).length := by
  have inside : ∀ item ∈ edges.flatMap (Edge.traversals orientation), item.1 < n := by
    intro item member
    obtain ⟨edge, given, traversed⟩ := List.mem_flatMap.mp member
    have ⟨source, target⟩ := within edge given
    rcases Edge.mem_traversals.mp traversed with rfl | ⟨-, rfl⟩
    · exact source
    · exact target
  rw [relationshipCount_eq, stores.nodes, ← Buckets.sum_length_keyed inside]
  exact Finset.sum_congr rfl fun node _ => by rw [stores.degree, keyed_traversals]

theorem Stores.weightsTo (stores : G.Stores n orientation weighted edges) (fallback : α) (u v : Nat) :
    G.weightsTo fallback u v = (edges.filter fun edge => edge.source = u ∧ edge.target = v ∨
      orientation = .undirected ∧ edge.source = v ∧ edge.target = u).map fun edge =>
        if weighted then edge.weight else fallback := by
  have listed := congrArg (List.map fun weight => if weighted then weight else fallback)
    (Edge.weights_flatMap_entries orientation u v edges)
  rw [List.map_map, List.map_map] at listed
  rw [Graph.weightsTo, stores.neighbors, List.filter_map, List.map_map]
  exact listed

theorem Stores.weightsTo_self (stores : G.Stores n orientation weighted edges) (fallback : α) (node : Nat) :
    G.weightsTo fallback node node =
      (edges.filter fun edge => edge.source = node ∧ edge.target = node).map fun edge =>
        if weighted then edge.weight else fallback := by
  rw [stores.weightsTo]
  congr 2
  funext edge
  exact decide_eq_decide.mpr ⟨fun either => either.elim id And.right, .inl⟩

theorem Stores.weightsTo_comm (stores : G.Stores n .undirected weighted edges) (fallback : α) (u v : Nat) :
    G.weightsTo fallback u v = G.weightsTo fallback v u := by
  simp only [stores.weightsTo, true_and, or_comm]

end Stores

/-- Building a graph fails exactly for lists with an edge that is not sound, and with the fault of the first
such edge, the range of its ends before its weight. Otherwise the traversal of a node yields what the edges
contribute to it, in their order, and there are no other relationships. In an undirected graph, then, the
same weights lead from one node to another as back, loops count once, and an edge may as well be given from
its other end. -/
theorem build_stores [Scalar α] (n : Nat) (orientation : Orientation) (weighted : Bool)
    (edges : List (Edge α)) :
    ((∃ G, build n orientation weighted edges = .ok G) ↔ ∀ edge ∈ edges, edge.Sound n) ∧
    (∀ error, build n orientation weighted edges = .error error ↔
      ∃ before edge after, edges = before ++ edge :: after ∧ (∀ earlier ∈ before, earlier.Sound n) ∧
        ¬edge.Sound n ∧ error = .invalid (edge.fault n)) ∧
    ∀ G, build n orientation weighted edges = .ok G →
      G.Stores n orientation weighted edges ∧
      (∀ node fallback, G.neighbors node fallback =
        (edges.flatMap (Edge.entries orientation node)).map fun entry =>
          (entry.1, if weighted then entry.2 else fallback)) ∧
      (∀ node, G.degree node = (edges.flatMap (Edge.entries orientation node)).length) ∧
      G.relationshipCount = ∑ node ∈ Finset.range n, G.degree node ∧
      G.relationshipCount = (edges.flatMap (Edge.traversals orientation)).length ∧
      (∀ node fallback, G.weightsTo fallback node node =
        (edges.filter fun edge => edge.source = node ∧ edge.target = node).map fun edge =>
          if weighted then edge.weight else fallback) ∧
      (orientation = .undirected →
        (∀ u v fallback, G.weightsTo fallback u v = G.weightsTo fallback v u) ∧
        ∀ before edge after, edges = before ++ edge :: after →
          build n orientation weighted (before ++ edge.reversed :: after) = .ok G) := by
  refine ⟨⟨fun ⟨G, built⟩ => sound_of_build_ok built, fun sound => ⟨_, build_ok_of_sound sound⟩⟩,
    fun error => build_error_iff, fun G built => ?_⟩
  have stores := stores_of_build_ok built
  have sound := sound_of_build_ok built
  refine ⟨stores, stores.neighbors, stores.degree, ?_, ?_, ?_, ?_⟩
  · rw [G.relationshipCount_eq, stores.nodes]
  · exact stores.relationshipCount fun edge member => (sound edge member).1
  · exact fun node fallback => stores.weightsTo_self fallback node
  · rintro rfl
    refine ⟨fun u v fallback => stores.weightsTo_comm fallback u v, ?_⟩
    rintro before edge after rfl
    have turned := Edge.forall_mem_reversed Edge.Sound.reversed sound
    rw [build_ok_of_sound turned, rowsOf_reversed fun other member => (sound other member).1,
      ← built, build_ok_of_sound sound]

def parallels : List (Edge ℚ) := [⟨0, 2, 1⟩, ⟨2, 2, 3⟩, ⟨2, 0, 5⟩, ⟨0, 2, 1 / 2⟩]

/-- The loop has one slot and the other edges have two each; two of the four nodes are alone. With fewer nodes
the same edges are refused. Of two edges that are not sound the first one counts, here for its weight. -/
theorem build_stores_parallels :
    (∃ G, build 4 .undirected true parallels = .ok G ∧
      G.neighbors 2 1 = [(0, 1), (2, 3), (0, 5), (0, 1 / 2)] ∧ G.neighbors 3 1 = [] ∧
      G.relationshipCount = 7 ∧ G.weightsTo 1 2 2 = [3] ∧ G.weightsTo 1 0 2 = G.weightsTo 1 2 0 ∧
      build 4 .undirected true [⟨0, 2, 1⟩, ⟨2, 2, 3⟩, ⟨0, 2, 5⟩, ⟨0, 2, 1 / 2⟩] = .ok G) ∧
    build 2 .undirected true parallels = .error (.invalid (.relationshipOutside 0 2 2)) ∧
    build 3 .natural true [⟨0, 1, 1⟩, ⟨1, 2, -1⟩, ⟨3, 0, (1 : ℚ)⟩] = .error (.invalid .weightNotPositive) := by
  refine ⟨?_, ?_, ?_⟩
  · obtain ⟨built, -, stored⟩ := build_stores 4 .undirected true parallels
    obtain ⟨G, built⟩ := built.mpr (by decide +kernel)
    obtain ⟨-, neighbors, -, -, traversals, loops, undirected⟩ := stored G built
    obtain ⟨both, turned⟩ := undirected rfl
    refine ⟨G, built, (neighbors 2 1).trans (by decide +kernel), (neighbors 3 1).trans (by decide +kernel),
      traversals.trans (by decide +kernel), (loops 2 1).trans (by decide +kernel), both 0 2 1, ?_⟩
    exact turned [⟨0, 2, 1⟩, ⟨2, 2, 3⟩] ⟨2, 0, 5⟩ [⟨0, 2, 1 / 2⟩] rfl
  · obtain ⟨-, failed, -⟩ := build_stores 2 .undirected true parallels
    exact (failed _).mpr ⟨[], ⟨0, 2, 1⟩, _, rfl, by decide, by decide +kernel, by decide +kernel⟩
  · obtain ⟨-, failed, -⟩ := build_stores 3 .natural true [⟨0, 1, 1⟩, ⟨1, 2, -1⟩, ⟨3, 0, (1 : ℚ)⟩]
    exact (failed _).mpr ⟨[⟨0, 1, 1⟩], ⟨1, 2, -1⟩, _, rfl, by decide +kernel, by decide +kernel,
      by decide +kernel⟩

end Graph

end CommunityDetection
