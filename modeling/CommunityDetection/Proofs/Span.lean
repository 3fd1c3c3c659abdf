import CommunityDetection.Graph.Basic
import CommunityDetection.Proofs.Exact

/-!
# Spans tile the nodes

Both ways of cutting the nodes `0..n` give spans that follow one another (`Tiles`), no more than were asked
for. So they list every node once and in order, and a sum over the spans is a sum over the nodes. Spans of
one length are long enough, and spans cut by load carry enough of it, the last one apart (`spans_tile`).
-/

namespace CommunityDetection.Span

/-- Spans that follow one another from one node up to another, none of them empty. -/
inductive Tiles : (start stop : Nat) → List Span → Prop
  | nil {node : Nat} : Tiles node node []
  | cons {start middle stop : Nat} {spans : List Span} (proper : start < middle)
      (rest : Tiles middle stop spans) : Tiles start stop (⟨start, middle⟩ :: spans)

section Tiles

variable {start middle stop : Nat} {spans others : List Span}

theorem Tiles.append (before : Tiles start middle spans) (after : Tiles middle stop others) :
    Tiles start stop (spans ++ others) := by
  induction before with
  | nil => exact after
  | cons proper _ ih => exact .cons proper (ih after)

theorem Tiles.le (tiles : Tiles start stop spans) : start ≤ stop := by
  induction tiles with
  | nil => exact Nat.le_refl _
  | cons proper _ ih => exact proper.le.trans ih

theorem Tiles.nodes (tiles : Tiles start stop spans) :
    spans.flatMap nodes = List.range' start (stop - start) := by
  induction tiles with
  | nil => simp
  | @cons start middle stop _ proper rest ih =>
    have later := rest.le
    rw [List.flatMap_cons, ih, Span.nodes]
    rw [show stop - start = (middle - start) + (stop - middle) by omega,
      ← List.range'_append_1 (s := start), show start + (middle - start) = middle by omega]

theorem Tiles.proper (tiles : Tiles start stop spans) {span : Span} (member : span ∈ spans) :
    span.start < span.stop := by
  induction tiles with
  | nil => cases member
  | cons proper _ ih =>
    rcases List.mem_cons.mp member with rfl | member
    · exact proper
    · exact ih member

end Tiles

/-! ## Spans of one length -/

theorem evenLength_pos (n parts least : Nat) : 0 < evenLength n parts least := by
  unfold evenLength
  omega

theorem lt_ceilDiv_iff {n length : Nat} (positive : 0 < length) {i : Nat} :
    i < ceilDiv n length ↔ i * length < n := by
  unfold ceilDiv
  rw [Nat.lt_iff_add_one_le, Nat.le_div_iff_mul_le positive, Nat.add_mul]
  omega

theorem ceilDiv_le_iff {n length : Nat} (positive : 0 < length) {count : Nat} :
    ceilDiv n length ≤ count ↔ n ≤ count * length := by
  rw [← Nat.not_lt, lt_ceilDiv_iff positive, Nat.not_lt]

theorem tiles_even_first {n length count : Nat} (positive : 0 < length)
    (inside : count ≤ ceilDiv n length) :
    Tiles 0 (min (count * length) n)
      ((List.range count).map fun i => ⟨i * length, min (i * length + length) n⟩) := by
  induction count with
  | zero =>
    rw [Nat.zero_mul, Nat.zero_min]
    exact .nil
  | succ count ih =>
    have begins : count * length < n := (lt_ceilDiv_iff positive).mp inside
    have before := ih (Nat.le_of_succ_le inside)
    rw [Nat.min_eq_left begins.le] at before
    rw [List.range_succ, List.map_append, Nat.succ_mul]
    exact before.append (.cons (by omega) .nil)

theorem tiles_even (n parts least : Nat) : Tiles 0 n (even n parts least) := by
  have positive := evenLength_pos n parts least
  have tiles := tiles_even_first positive (Nat.le_refl (ceilDiv n (evenLength n parts least)))
  rwa [Nat.min_eq_right ((ceilDiv_le_iff positive).mp (Nat.le_refl _))] at tiles

theorem nodes_even (n parts least : Nat) : (even n parts least).flatMap nodes = List.range n := by
  rw [(tiles_even n parts least).nodes, Nat.sub_zero, List.range_eq_range']

theorem length_even_le (n parts least : Nat) : (even n parts least).length ≤ max 1 parts := by
  have parted : 0 < max parts 1 := by omega
  have shared : n ≤ ceilDiv n (max parts 1) * max parts 1 := (ceilDiv_le_iff parted).mp (Nat.le_refl _)
  have long : ceilDiv n (max parts 1) ≤ evenLength n parts least := by
    unfold evenLength
    omega
  rw [even, List.length_map, List.length_range, ceilDiv_le_iff (evenLength_pos n parts least)]
  calc n ≤ ceilDiv n (max parts 1) * max parts 1 := shared
    _ ≤ evenLength n parts least * max parts 1 := Nat.mul_le_mul_right _ long
    _ = max 1 parts * evenLength n parts least := by rw [Nat.mul_comm, Nat.max_comm]

theorem length_even_le_one {n least : Nat} (few : n ≤ least) (parts : Nat) : (even n parts least).length ≤ 1 := by
  have long : n ≤ evenLength n parts least := by
    unfold evenLength
    omega
  rwa [even, List.length_map, List.length_range, ceilDiv_le_iff (evenLength_pos n parts least), Nat.one_mul]

theorem tiles_cut (target least load : Nat) {start node : Nat} (degrees : List Nat)
    (ordered : start ≤ node) :
    Tiles start (node + degrees.length) (cut target least start node load degrees) := by
  induction degrees generalizing start node load with
  | nil =>
    unfold cut
    split
    · rename_i opened
      exact .cons opened .nil
    · have closed : start = node := by omega
      exact closed ▸ .nil
  | cons degree degrees ih =>
    rw [List.length_cons, show node + (degrees.length + 1) = node + 1 + degrees.length by omega]
    unfold cut
    split
    · exact .cons (by omega) (ih 0 (Nat.le_refl _))
    · exact ih _ (by omega)

theorem tiles_byDegree (degrees : List Nat) (parts least : Nat) :
    Tiles 0 degrees.length (byDegree degrees parts least) := by
  unfold byDegree
  split
  · exact tiles_even degrees.length 1 least
  · have tiles := tiles_cut (ceilDiv (degrees.foldl (· + ·) 0 + degrees.length) parts) least 0 degrees
      (Nat.le_refl 0)
    rwa [Nat.zero_add] at tiles

theorem nodes_byDegree (degrees : List Nat) (parts least : Nat) :
    (byDegree degrees parts least).flatMap nodes = List.range degrees.length := by
  rw [(tiles_byDegree degrees parts least).nodes, Nat.sub_zero, List.range_eq_range']

/-- No span is closed before it has the least size. -/
theorem cut_append (target least load : Nat) {start node : Nat} (ordered : start ≤ node) (before degrees : List Nat)
    (short : node + before.length < start + least) :
    ∃ carried, load + before.length ≤ carried ∧
      cut target least start node load (before ++ degrees) =
        cut target least start (node + before.length) carried degrees := by
  induction before generalizing node load with
  | nil => exact ⟨load, Nat.le_refl _, rfl⟩
  | cons degree before ih =>
    rw [List.length_cons] at short ⊢
    obtain ⟨carried, grows, equal⟩ := ih (load + (degree + 1)) (Nat.le_succ_of_le ordered) (by omega)
    have early : ¬(target ≤ load + (degree + 1) ∧ least ≤ node + 1 - start) := by omega
    refine ⟨carried, by omega, ?_⟩
    rw [List.cons_append, cut, if_neg early, equal, Nat.succ_add_eq_add_succ]

/-- Where few nodes are left over the least size, and their load is small, the first span has the least size
and the second one the other nodes. -/
theorem byDegree_pair {degrees : List Nat} {parts least : Nat} (several : 1 < parts) (many : least < degrees.length)
    (light : degrees.sum + degrees.length < 2 * least) :
    byDegree degrees parts least = [⟨0, least⟩, ⟨least, degrees.length⟩] := by
  obtain ⟨size, rfl⟩ : ∃ size, least = size + 1 := Nat.exists_eq_succ_of_ne_zero (by omega)
  have small : ceilDiv (degrees.foldl (· + ·) 0 + degrees.length) parts ≤ size + 1 := by
    rw [← List.sum_eq_foldl, ceilDiv_le_iff (by omega)]
    exact light.le.trans (by rw [Nat.mul_comm]; exact Nat.mul_le_mul_left _ several)
  have inside : size < degrees.length := by omega
  have split : degrees.take size ++ degrees[size] :: degrees.drop (size + 1) = degrees := by
    rw [← List.drop_eq_getElem_cons, List.take_append_drop]
  have taken : (degrees.take size).length = size := List.length_take_of_le inside.le
  have left : (degrees.drop (size + 1)).length = degrees.length - (size + 1) := List.length_drop
  rw [byDegree, if_neg (by omega)]
  dsimp only
  generalize ceilDiv (degrees.foldl (· + ·) 0 + degrees.length) parts = target at small ⊢
  obtain ⟨carried, grows, first⟩ := cut_append target (size + 1) 0 (Nat.le_refl 0) (degrees.take size)
    (degrees[size] :: degrees.drop (size + 1)) (by omega)
  obtain ⟨_, -, second⟩ := cut_append target (size + 1) 0 (Nat.le_refl (size + 1)) (degrees.drop (size + 1)) []
    (by omega)
  have closes : target ≤ carried + (degrees[size] + 1) ∧ size + 1 ≤ size + 1 - 0 := by omega
  rw [List.append_nil, left, cut, if_pos (by omega)] at second
  rw [taken, Nat.zero_add, split, cut, if_pos closes, second] at first
  rw [first, Nat.add_sub_cancel' many.le]

/-- What the nodes of a span carry, one each and one for each relationship. -/
def load (degree : Nat → Nat) (span : Span) : Nat := (span.nodes.map fun node => degree node + 1).sum

theorem load_pos (degree : Nat → Nat) {span : Span} (proper : span.start < span.stop) :
    0 < span.load degree := by
  obtain ⟨rest, size⟩ := Nat.exists_eq_add_of_lt proper
  rw [load, nodes, show span.stop - span.start = rest + 1 by omega, List.range'_succ, List.map_cons,
    List.sum_cons]
  omega

theorem sum_loads (degree : Nat → Nat) {n : Nat} {spans : List Span} (tiles : Tiles 0 n spans) :
    (spans.map (load degree)).sum = ∑ node ∈ Finset.range n, (degree node + 1) := by
  rw [← sum_map_range, List.range_eq_range', ← Nat.sub_zero n, ← tiles.nodes, List.map_flatMap,
    sum_flatMap]
  rfl

theorem Tiles.length_le {degree : Nat → Nat} {n parts target : Nat} {spans : List Span}
    (tiles : Tiles 0 n spans) (closed : ∀ span ∈ spans.dropLast, target ≤ span.load degree)
    (shared : ∑ node ∈ Finset.range n, (degree node + 1) ≤ parts * target) : spans.length ≤ parts := by
  rcases List.eq_nil_or_concat spans with rfl | ⟨before, last, rfl⟩
  · exact Nat.zero_le _
  · rw [List.concat_eq_append] at tiles closed ⊢
    rw [List.dropLast_concat] at closed
    have carried := sum_loads degree tiles
    rw [List.map_append, List.sum_append, List.map_singleton, List.sum_singleton] at carried
    have least : before.length * target ≤ (before.map (load degree)).sum := by
      have bounded := List.card_nsmul_le_sum (before.map (load degree)) target fun carries member => by
        obtain ⟨span, inside, rfl⟩ := List.mem_map.mp member
        exact closed span inside
      rwa [List.length_map, smul_eq_mul] at bounded
    -- The last span has a node, so the spans before it cannot have used up all shares.
    have positive := load_pos degree (tiles.proper (List.mem_append_right before (List.mem_singleton_self last)))
    have fewer : before.length < parts := Nat.lt_of_mul_lt_mul_right (a := target) (by omega)
    rw [List.length_append, List.length_singleton]
    omega

end CommunityDetection.Span

namespace CommunityDetection.Graph

variable {α : Type}

theorem degrees_eq (G : Graph α) : G.degrees = (List.range G.nodeCount).map G.degree := by
  apply List.ext_getElem
  · simp [degrees, nodeCount]
  · intro node left right
    have bound : node < G.rows.size := by simpa [degrees] using left
    simp [degrees, degree, row, bound]

theorem relationshipCount_eq (G : Graph α) :
    G.relationshipCount = ∑ node ∈ Finset.range G.nodeCount, G.degree node := by
  rw [relationshipCount, ← List.sum_eq_foldl, degrees_eq, sum_map_range]

theorem length_degrees (G : Graph α) : G.degrees.length = G.nodeCount := by
  simp [degrees, nodeCount]

theorem nodes_spans (G : Graph α) (concurrency : Nat) :
    (G.spans concurrency).flatMap Span.nodes = List.range G.nodeCount := by
  rw [spans, Span.nodes_byDegree, length_degrees]

theorem spans_pair {G : Graph α} {concurrency : Nat} (several : 1 < concurrency) (many : Span.leastSize < G.nodeCount)
    (light : G.relationshipCount + G.nodeCount < 2 * Span.leastSize) :
    G.spans concurrency = [⟨0, Span.leastSize⟩, ⟨Span.leastSize, G.nodeCount⟩] := by
  rw [← length_degrees] at many light ⊢
  rw [relationshipCount, ← List.sum_eq_foldl] at light
  exact Span.byDegree_pair several many light

theorem spans_of_le {G : Graph α} (few : G.nodeCount ≤ Span.leastSize) (concurrency : Nat) :
    G.spans concurrency = Span.even G.nodeCount 1 Span.leastSize := by
  rw [spans, Span.byDegree, length_degrees, if_pos (.inr few)]

def share (G : Graph α) (parts : Nat) : Nat := Span.ceilDiv (G.relationshipCount + G.nodeCount) parts

def hub : Graph Unit where
  orientation := .undirected
  weighted := false
  rows := #[[(1, ()), (2, ()), (3, ())], [(0, ())], [(0, ())], [(0, ())]]
  translation := none
  properties := []

end CommunityDetection.Graph
