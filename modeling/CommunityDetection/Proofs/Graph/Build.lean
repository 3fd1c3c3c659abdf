import CommunityDetection.Graph.Build
import CommunityDetection.Proofs.Buckets
import CommunityDetection.Proofs.Graph.Weight

/-!
# Graphs built from edges

The row of a node of a built graph is the list of what each edge contributes to it, in the order of
the edges (`FromEdges.edges`). So an undirected graph has the same relationships, with the same
weights, in both directions.
-/

namespace CommunityDetection

variable {α : Type}

/-- What an edge contributes to the row of a node. -/
def Edge.entries (orientation : Orientation) (node : Nat) (edge : Edge α) : Row α :=
  (if edge.source = node then [(edge.target, edge.weight)] else []) ++
    if orientation = .undirected ∧ edge.source ≠ edge.target ∧ edge.target = node then
      [(edge.source, edge.weight)]
    else []

def Edge.Within (n : Nat) (edge : Edge α) : Prop := edge.source < n ∧ edge.target < n

theorem Edge.within_of_fault?_eq_none [Scalar α] {n : Nat} {edge : Edge α}
    (sound : edge.fault? n = none) :
    edge.Within n ∧ 0 < edge.weight ∧ Scalar.isFinite edge.weight = true := by
  unfold fault? at sound
  split at sound
  · cases sound
  · rename_i inside
    split at sound
    · rename_i positive
      unfold Within
      exact ⟨by omega, positive⟩
    · cases sound

theorem Edge.mem_entries {node : Nat} {edge : Edge α} {entry : Nat × α} :
    entry ∈ edge.entries .undirected node ↔
      (edge.source = node ∧ entry = (edge.target, edge.weight)) ∨
        (edge.source ≠ edge.target ∧ edge.target = node ∧ entry = (edge.source, edge.weight)) := by
  unfold entries
  by_cases atSource : edge.source = node <;> by_cases loop : edge.source = edge.target <;>
    by_cases atTarget : edge.target = node <;> simp [atSource, loop, atTarget]

theorem Edge.entries_of_outside {n : Nat} {edge : Edge α} (within : edge.Within n)
    (orientation : Orientation) {node : Nat} (outside : n ≤ node) :
    edge.entries orientation node = [] := by
  have source : edge.source ≠ node := by
    have := within.1
    omega
  have target : edge.target ≠ node := by
    have := within.2
    omega
  simp [Edge.entries, source, target]

namespace Graph

theorem keyed_traversals (orientation : Orientation) (edges : List (Edge α)) (node : Nat) :
    Buckets.keyed (edges.flatMap (Edge.traversals orientation)) node =
      edges.flatMap (Edge.entries orientation node) := by
  have each (edge : Edge α) :
      Buckets.keyed (edge.traversals orientation) node = edge.entries orientation node := by
    rw [Edge.traversals, ← List.singleton_append, Buckets.keyed_append, Buckets.keyed_singleton,
      Edge.entries]
    congr 1
    by_cases both : orientation = .undirected ∧ edge.source ≠ edge.target
    · rw [if_pos both, Buckets.keyed_singleton]
      simp [both]
    · rw [if_neg both, if_neg fun all => both ⟨all.1, all.2.1⟩]
      rfl
  induction edges with
  | nil => rfl
  | cons edge edges ih =>
    rw [List.flatMap_cons, Buckets.keyed_append, each, ih, List.flatMap_cons]

theorem size_rowsOf [Scalar α] (n : Nat) (orientation : Orientation) (edges : List (Edge α)) :
    (rowsOf n orientation edges).size = n := Buckets.size_arrange n (0, 0) _

theorem getD_rowsOf [Scalar α] {n : Nat} (orientation : Orientation) {edges : List (Edge α)}
    (within : ∀ edge ∈ edges, edge.Within n) (node : Nat) :
    (rowsOf n orientation edges).getD node [] = edges.flatMap (Edge.entries orientation node) := by
  by_cases bound : node < n
  · rw [rowsOf, Buckets.getD_arrange _ _ bound, keyed_traversals]
  · have none : edges.flatMap (Edge.entries orientation node) = [] :=
      List.flatMap_eq_nil_iff.mpr fun edge member =>
        Edge.entries_of_outside (within edge member) orientation (Nat.le_of_not_lt bound)
    have outside := (size_rowsOf n orientation edges).trans_le (Nat.le_of_not_lt bound)
    rw [none, Array.getD_eq_getD_getElem?, Array.getElem?_eq_none outside]
    rfl

/-- Undirected graphs built from edges, possibly with properties. -/
inductive FromEdges [Scalar α] : Graph α → Prop
  | unweighted {n : Nat} {pairs : List (Nat × Nat)} {G : Graph α}
      (built : ofEdges n .undirected pairs = .ok G) : FromEdges G
  | weighted {n : Nat} {edges : List (Edge α)} {G : Graph α}
      (built : ofWeightedEdges n .undirected edges = .ok G) : FromEdges G
  | property {G H : Graph α} {name : String} {values : Array (Option Nat)} (given : FromEdges G)
      (attached : G.withProperty name values = .ok H) : FromEdges H

theorem build_ok [Scalar α] {n : Nat} {orientation : Orientation} {weighted : Bool}
    {edges : List (Edge α)} {G : Graph α} (built : build n orientation weighted edges = .ok G) :
    (∀ edge ∈ edges, edge.Within n ∧ 0 < edge.weight) ∧
      G = ⟨orientation, weighted, rowsOf n orientation edges, none, []⟩ := by
  unfold build at built
  cases faults : edges.findSome? (Edge.fault? n) with
  | some fault => simp [faults] at built
  | none =>
    simp only [faults, Except.ok.injEq] at built
    refine ⟨fun edge member => ?_, built.symm⟩
    have sound := Edge.within_of_fault?_eq_none (List.findSome?_eq_none_iff.mp faults edge member)
    exact ⟨sound.1, sound.2.1⟩

theorem FromEdges.edges [Scalar α] {G : Graph α} (given : G.FromEdges) :
    G.orientation = .undirected ∧ G.translation = none ∧
      ∃ edges : List (Edge α), (∀ edge ∈ edges, edge.Within G.nodeCount ∧ 0 < edge.weight) ∧
        ∀ node, G.row node = edges.flatMap (Edge.entries .undirected node) := by
  have ofBuild : ∀ {n weighted} {edges : List (Edge α)} {G : Graph α},
      build n .undirected weighted edges = .ok G →
      G.orientation = .undirected ∧ G.translation = none ∧
        ∃ edges : List (Edge α), (∀ edge ∈ edges, edge.Within G.nodeCount ∧ 0 < edge.weight) ∧
          ∀ node, G.row node = edges.flatMap (Edge.entries .undirected node) := by
    intro n weighted edges G built
    obtain ⟨sound, rfl⟩ := build_ok built
    refine ⟨rfl, rfl, edges, ?_, getD_rowsOf .undirected fun edge member => (sound edge member).1⟩
    simpa [nodeCount, size_rowsOf] using sound
  induction given with
  | unweighted built => exact ofBuild built
  | weighted built => exact ofBuild built
  | property given attached ih =>
    unfold withProperty at attached
    split at attached
    · cases attached
      exact ih
    · cases attached

theorem FromEdges.closed [Scalar α] {G : Graph α} (given : G.FromEdges) : G.Closed := by
  obtain ⟨-, -, edges, sound, rows⟩ := given.edges
  intro node entry member
  rw [rows] at member
  obtain ⟨edge, inEdges, inEntries⟩ := List.mem_flatMap.mp member
  have ⟨source, target⟩ := (sound edge inEdges).1
  rcases Edge.mem_entries.mp inEntries with ⟨-, rfl⟩ | ⟨-, -, rfl⟩
  · exact target
  · exact source

theorem FromEdges.adjacent_comm [Scalar α] {G : Graph α} (given : G.FromEdges) {u v : Nat}
    (adjacent : G.Adjacent u v) : G.Adjacent v u := by
  obtain ⟨-, -, edges, -, rows⟩ := given.edges
  obtain ⟨entry, member, rfl⟩ := adjacent
  rw [rows] at member
  obtain ⟨edge, inEdges, inEntries⟩ := List.mem_flatMap.mp member
  refine ⟨(u, edge.weight), ?_, rfl⟩
  rw [rows]
  refine List.mem_flatMap.mpr ⟨edge, inEdges, Edge.mem_entries.mpr ?_⟩
  rcases Edge.mem_entries.mp inEntries with ⟨rfl, rfl⟩ | ⟨ne, rfl, rfl⟩
  · by_cases loop : edge.source = edge.target
    · exact .inl ⟨loop, by rw [← loop]⟩
    · exact .inr ⟨loop, rfl, rfl⟩
  · exact .inl ⟨rfl, rfl⟩

theorem weightAt_entries {K : Type} [Field K] (edge : Edge K) (u v : Nat) :
    weightAt (edge.entries .undirected u) v =
      (if edge.source = u ∧ edge.target = v then edge.weight else 0) +
        if edge.source ≠ edge.target ∧ edge.target = u ∧ edge.source = v then edge.weight else 0 := by
  rw [Edge.entries, weightAt_append]
  congr 1
  · by_cases atSource : edge.source = u <;> simp [weightAt_cons, atSource]
  · by_cases entered : edge.source ≠ edge.target ∧ edge.target = u
    · have apart : edge.source ≠ u := entered.2 ▸ entered.1
      simp [weightAt_cons, entered.2, apart]
    · rw [if_neg fun all => entered all.2, if_neg fun all => entered ⟨all.1, all.2.1⟩, weightAt_nil]

theorem weightAt_entries_comm {K : Type} [Field K] (edge : Edge K) (u v : Nat) :
    weightAt (edge.entries .undirected u) v = weightAt (edge.entries .undirected v) u := by
  rw [weightAt_entries, weightAt_entries]
  by_cases loop : edge.source = edge.target
  · simp [loop, and_comm]
  · rw [add_comm]
    simp [loop, and_comm]

theorem FromEdges.symmetric {K : Type} [Field K] [LinearOrder K] {G : Graph K}
    (given : G.FromEdges) : G.Symmetric := by
  obtain ⟨-, -, edges, -, rows⟩ := given.edges
  intro u v
  simp only [weight, rows, weightAt_flatMap]
  congr 1
  exact List.map_congr_left fun edge _ => weightAt_entries_comm edge u v

theorem built_of_sound [Scalar α] {n : Nat} {edges : List (Edge α)}
    (sound : (edges.findSome? (Edge.fault? n)).isNone = true) :
    ofWeightedEdges n .undirected edges =
      .ok ⟨.undirected, true, rowsOf n .undirected edges, none, []⟩ := by
  rw [ofWeightedEdges, build, Option.isNone_iff_eq_none.mp sound]

theorem fromEdges_of_sound [Scalar α] {n : Nat} {edges : List (Edge α)}
    (sound : (edges.findSome? (Edge.fault? n)).isNone = true) :
    (⟨.undirected, true, rowsOf n .undirected edges, none, []⟩ : Graph α).FromEdges :=
  .weighted (built_of_sound sound)

def loopedPath : Graph ℚ where
  orientation := .undirected
  weighted := true
  rows := rowsOf 4 .undirected [⟨0, 1, 1⟩, ⟨1, 2, 1⟩, ⟨2, 3, 1⟩, ⟨3, 3, 1⟩]
  translation := none
  properties := []

theorem fromEdges_loopedPath : loopedPath.FromEdges := fromEdges_of_sound (by decide +kernel)

end Graph

end CommunityDetection
