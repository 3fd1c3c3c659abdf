import CommunityDetection.Proofs.Exact

/-!
# The quality of a partition

The quality of a partition of `n` nodes is the sum of `weight u v - gamma * volume u * volume v` over
all ordered pairs of nodes in one community. Modularity is this number on the scale of the
coefficient. The two laws behind the search are

* `quality_update`: moving one node changes the quality by twice the difference of its attractions,
* `quality_pullback`: a partition of a coarse graph has the quality of the partition that it induces
  on the nodes merged into it.
-/

namespace CommunityDetection
open Finset

variable {K : Type} [Field K]

def bond (weight : Nat → Nat → K) (volume : Nat → K) (gamma : K) (u v : Nat) : K :=
  weight u v - gamma * volume u * volume v

def quality (n : Nat) (weight : Nat → Nat → K) (volume : Nat → K) (gamma : K)
    (community : Nat → Nat) : K :=
  ∑ u ∈ range n, ∑ v ∈ range n,
    if community u = community v then bond weight volume gamma u v else 0

def attraction (n : Nat) (weight : Nat → Nat → K) (volume : Nat → K) (gamma : K)
    (community : Nat → Nat) (node target : Nat) : K :=
  ∑ v ∈ (range n).erase node, if community v = target then bond weight volume gamma node v else 0

variable {n : Nat} {weight : Nat → Nat → K} {volume : Nat → K} {gamma : K}

theorem quality_congr {community other : Nat → Nat}
    (same : ∀ u < n, ∀ v < n, (community u = community v ↔ other u = other v)) :
    quality n weight volume gamma community = quality n weight volume gamma other := by
  refine sum_congr rfl fun u inU => sum_congr rfl fun v inV => ?_
  rw [mem_range] at inU inV
  simp only [same u inU v inV]

theorem attraction_congr {community other : Nat → Nat} {node : Nat} (target : Nat)
    (same : ∀ v, v ≠ node → community v = other v) :
    attraction n weight volume gamma community node target =
      attraction n weight volume gamma other node target :=
  sum_congr rfl fun v inV => by rw [same v (ne_of_mem_erase inV)]

theorem quality_eq_attraction (symmetric : ∀ u v, weight u v = weight v u) (community : Nat → Nat)
    {node : Nat} (bound : node < n) :
    quality n weight volume gamma community =
      bond weight volume gamma node node +
        2 * attraction n weight volume gamma community node (community node) +
        ∑ u ∈ (range n).erase node, ∑ v ∈ (range n).erase node,
          if community u = community v then bond weight volume gamma u v else 0 := by
  have inside : node ∈ range n := mem_range.mpr bound
  have bond_comm (u v : Nat) : bond weight volume gamma u v = bond weight volume gamma v u := by
    unfold bond
    rw [symmetric u v]
    ring
  have split (u : Nat) : (∑ v ∈ range n, if community u = community v then
        bond weight volume gamma u v else 0) =
      (if community u = community node then bond weight volume gamma u node else 0) +
        ∑ v ∈ (range n).erase node, if community u = community v then
          bond weight volume gamma u v else 0 := (add_sum_erase _ _ inside).symm
  have column : (∑ u ∈ (range n).erase node, if community u = community node then
        bond weight volume gamma u node else 0) =
      attraction n weight volume gamma community node (community node) :=
    sum_congr rfl fun u _ => by rw [bond_comm u node]
  have row : (∑ v ∈ (range n).erase node, if community node = community v then
        bond weight volume gamma node v else 0) =
      attraction n weight volume gamma community node (community node) :=
    sum_congr rfl fun v _ => by simp only [eq_comm]
  unfold quality
  simp only [split]
  rw [sum_add_distrib, ← add_sum_erase _ _ inside, ← add_sum_erase _ _ inside, if_pos rfl, column, row]
  ring

theorem quality_update (symmetric : ∀ u v, weight u v = weight v u) (community : Nat → Nat)
    {node : Nat} (bound : node < n) (target : Nat) :
    quality n weight volume gamma (Function.update community node target) =
      quality n weight volume gamma community +
        2 * (attraction n weight volume gamma community node target -
          attraction n weight volume gamma community node (community node)) := by
  have others : ∀ v, v ≠ node → Function.update community node target v = community v :=
    fun v ne => Function.update_of_ne ne target community
  rw [quality_eq_attraction symmetric _ bound, quality_eq_attraction symmetric community bound,
    Function.update_self, attraction_congr target others]
  have rest : (∑ u ∈ (range n).erase node, ∑ v ∈ (range n).erase node,
        if Function.update community node target u = Function.update community node target v then
          bond weight volume gamma u v else 0) =
      ∑ u ∈ (range n).erase node, ∑ v ∈ (range n).erase node,
        if community u = community v then bond weight volume gamma u v else 0 :=
    sum_congr rfl fun u inU => sum_congr rfl fun v inV => by
      rw [others u (ne_of_mem_erase inU), others v (ne_of_mem_erase inV)]
  rw [rest]
  ring

theorem sum_update_members {node : Nat} (bound : node < n) (community : Nat → Nat)
    (target other : Nat) (volume : Nat → K) :
    (∑ v ∈ range n with Function.update community node target v = other, volume v) =
      (∑ v ∈ range n with community v = other, volume v) +
        (if community node = other then -volume node else 0) +
        if target = other then volume node else 0 := by
  have member : node ∈ range n := mem_range.mpr bound
  have others : (∑ v ∈ (range n).erase node,
        if Function.update community node target v = other then volume v else 0) =
      ∑ v ∈ (range n).erase node, if community v = other then volume v else 0 :=
    sum_congr rfl fun v inV => by rw [Function.update_of_ne (ne_of_mem_erase inV)]
  rw [sum_filter, sum_filter, ← add_sum_erase _ _ member, ← add_sum_erase _ _ member, others,
    Function.update_self]
  by_cases left : community node = other <;> by_cases entered : target = other <;>
    simp only [left, entered, if_true, if_false] <;> ring

theorem attraction_eq (community : Nat → Nat) (node target : Nat) :
    attraction n weight volume gamma community node target =
      (∑ v ∈ (range n).erase node with community v = target, weight node v) -
        gamma * volume node * ∑ v ∈ (range n).erase node with community v = target, volume v := by
  rw [attraction, ← sum_filter, mul_sum, ← sum_sub_distrib]
  rfl

theorem quality_eq_intra_sub_squares {community : Nat → Nat} {m : Nat}
    (bounded : ∀ v < n, community v < m) :
    quality n weight volume gamma community =
      (∑ u ∈ range n, ∑ v ∈ range n with community v = community u, weight u v) -
        gamma * ∑ c ∈ range m, (∑ v ∈ range n with community v = c, volume v) ^ 2 := by
  have square (c : Nat) : (∑ v ∈ range n with community v = c, volume v) ^ 2 =
      ∑ u ∈ range n with community u = c, ∑ v ∈ range n with community v = community u,
        volume u * volume v := by
    rw [pow_two, sum_mul_sum]
    refine sum_congr rfl fun u inU => ?_
    rw [(mem_filter.mp inU).2]
  have squares : (∑ c ∈ range m, (∑ v ∈ range n with community v = c, volume v) ^ 2) =
      ∑ u ∈ range n, ∑ v ∈ range n with community v = community u, volume u * volume v := by
    simp only [square]
    exact sum_fiberwise_of_maps_to (fun u inU => mem_range.mpr (bounded u (mem_range.mp inU))) _
  rw [squares, mul_sum, ← sum_sub_distrib]
  refine sum_congr rfl fun u _ => ?_
  rw [mul_sum, ← sum_sub_distrib, ← sum_filter]
  refine sum_congr (filter_congr fun v _ => eq_comm) fun v _ => ?_
  rw [bond, mul_assoc]

/-- The summed weights and volumes of the nodes merged into each node of a coarse graph. -/
structure Merges (n m : Nat) (merged : Nat → Nat) (weight coarseWeight : Nat → Nat → K)
    (volume coarseVolume : Nat → K) : Prop where
  maps : ∀ v < n, merged v < m
  weights : ∀ a < m, ∀ b < m, coarseWeight a b =
    ∑ u ∈ range n with merged u = a, ∑ v ∈ range n with merged v = b, weight u v
  volumes : ∀ a < m, coarseVolume a = ∑ v ∈ range n with merged v = a, volume v

namespace Merges

variable {m : Nat} {merged : Nat → Nat} {coarseWeight : Nat → Nat → K} {coarseVolume : Nat → K}

theorem bond_eq (sums : Merges n m merged weight coarseWeight volume coarseVolume) {a b : Nat}
    (boundA : a < m) (boundB : b < m) :
    bond coarseWeight coarseVolume gamma a b =
      ∑ u ∈ range n with merged u = a, ∑ v ∈ range n with merged v = b,
        bond weight volume gamma u v := by
  simp only [bond, sum_sub_distrib, sums.weights a boundA b boundB, sums.volumes a boundA,
    sums.volumes b boundB, mul_sum, sum_mul]
  rw [sum_comm (s := (range n).filter fun v => merged v = b)]

/-- A partition of the coarse graph has the quality of the partition that it induces. -/
theorem quality_pullback (sums : Merges n m merged weight coarseWeight volume coarseVolume)
    (community : Nat → Nat) :
    quality m coarseWeight coarseVolume gamma community =
      quality n weight volume gamma (community ∘ merged) := by
  have inside : ∀ u ∈ range n, merged u ∈ range m :=
    fun u inU => mem_range.mpr (sums.maps u (mem_range.mp inU))
  have cell : ∀ a ∈ range m, ∀ b ∈ range m,
      (if community a = community b then bond coarseWeight coarseVolume gamma a b else 0) =
        ∑ u ∈ range n with merged u = a, ∑ v ∈ range n with merged v = b,
          if community (merged u) = community (merged v) then bond weight volume gamma u v else 0 := by
    intro a inA b inB
    rw [sums.bond_eq (mem_range.mp inA) (mem_range.mp inB)]
    by_cases same : community a = community b
    · rw [if_pos same]
      refine sum_congr rfl fun u inU => sum_congr rfl fun v inV => ?_
      rw [(mem_filter.mp inU).2, (mem_filter.mp inV).2, if_pos same]
    · rw [if_neg same]
      symm
      refine sum_eq_zero fun u inU => sum_eq_zero fun v inV => ?_
      rw [(mem_filter.mp inU).2, (mem_filter.mp inV).2, if_neg same]
  calc quality m coarseWeight coarseVolume gamma community
      = ∑ a ∈ range m, ∑ b ∈ range m, ∑ u ∈ range n with merged u = a, ∑ v ∈ range n with merged v = b,
          if community (merged u) = community (merged v) then bond weight volume gamma u v else 0 :=
        sum_congr rfl fun a inA => sum_congr rfl fun b inB => cell a inA b inB
    _ = ∑ a ∈ range m, ∑ u ∈ range n with merged u = a, ∑ b ∈ range m, ∑ v ∈ range n with merged v = b,
          if community (merged u) = community (merged v) then bond weight volume gamma u v else 0 :=
        sum_congr rfl fun a _ => sum_comm
    _ = quality n weight volume gamma (community ∘ merged) := by
        simp only [sum_fiberwise_of_maps_to inside]
        rfl

theorem congr (sums : Merges n m merged weight coarseWeight volume coarseVolume)
    {other : Nat → Nat} (same : ∀ v < n, merged v = other v) :
    Merges n m other weight coarseWeight volume coarseVolume := by
  have members (a : Nat) :
      (range n).filter (fun v => merged v = a) = (range n).filter fun v => other v = a :=
    filter_congr fun v inV => by rw [same v (mem_range.mp inV)]
  refine ⟨fun v bound => same v bound ▸ sums.maps v bound, fun a boundA b boundB => ?_,
    fun a bound => ?_⟩
  · rw [sums.weights a boundA b boundB, members, members]
  · rw [sums.volumes a bound, members]

theorem total (sums : Merges n m merged weight coarseWeight volume coarseVolume) :
    ∑ a ∈ range m, coarseVolume a = ∑ v ∈ range n, volume v := by
  rw [← sum_fiberwise_of_maps_to (s := range n) (t := range m) (g := merged)
    fun v inV => mem_range.mpr (sums.maps v (mem_range.mp inV))]
  exact sum_congr rfl fun a inA => sums.volumes a (mem_range.mp inA)

theorem refl (n : Nat) (weight : Nat → Nat → K) (volume : Nat → K) :
    Merges n n id weight weight volume volume where
  maps _ bound := bound
  weights a boundA b boundB := by simp [filter_eq', boundA, boundB]
  volumes a bound := by simp [filter_eq', bound]

theorem sum_fibres {M : Type} [AddCommMonoid M]
    (sums : Merges n m merged weight coarseWeight volume coarseVolume) (next : Nat → Nat) (f : Nat → M)
    (a : Nat) :
    (∑ x ∈ range m with next x = a, ∑ u ∈ range n with merged u = x, f u) =
      ∑ u ∈ range n with next (merged u) = a, f u := by
  have inFibre : ∀ u ∈ (range n).filter fun u => next (merged u) = a,
      merged u ∈ (range m).filter fun x => next x = a := by
    intro u inU
    obtain ⟨inRange, maps⟩ := mem_filter.mp inU
    exact mem_filter.mpr ⟨mem_range.mpr (sums.maps u (mem_range.mp inRange)), maps⟩
  -- The fibre of the composition over `a` is the union of the fibres over the nodes merged into `a`.
  rw [← sum_fiberwise_of_maps_to inFibre]
  refine sum_congr rfl fun x inX => sum_congr ?_ fun _ _ => rfl
  ext u
  simp only [mem_filter]
  constructor
  · rintro ⟨inRange, rfl⟩
    exact ⟨⟨inRange, (mem_filter.mp inX).2⟩, rfl⟩
  · rintro ⟨⟨inRange, -⟩, rfl⟩
    exact ⟨inRange, rfl⟩

theorem trans {l : Nat} {next : Nat → Nat} {topWeight : Nat → Nat → K} {topVolume : Nat → K}
    (first : Merges n m merged weight coarseWeight volume coarseVolume)
    (second : Merges m l next coarseWeight topWeight coarseVolume topVolume) :
    Merges n l (next ∘ merged) weight topWeight volume topVolume := by
  refine ⟨fun v bound => second.maps _ (first.maps v bound), fun a boundA b boundB => ?_,
    fun a bound => ?_⟩
  · rw [second.weights a boundA b boundB]
    calc (∑ x ∈ range m with next x = a, ∑ y ∈ range m with next y = b, coarseWeight x y)
        = ∑ x ∈ range m with next x = a, ∑ y ∈ range m with next y = b,
            ∑ u ∈ range n with merged u = x, ∑ v ∈ range n with merged v = y, weight u v := by
          refine sum_congr rfl fun x inX => sum_congr rfl fun y inY => ?_
          exact first.weights x (mem_range.mp (mem_filter.mp inX).1) y
            (mem_range.mp (mem_filter.mp inY).1)
      _ = ∑ x ∈ range m with next x = a, ∑ u ∈ range n with merged u = x,
            ∑ v ∈ range n with next (merged v) = b, weight u v := by
          refine sum_congr rfl fun x _ => ?_
          rw [sum_comm]
          exact sum_congr rfl fun u _ => first.sum_fibres next (fun v => weight u v) b
      _ = ∑ u ∈ range n with next (merged u) = a, ∑ v ∈ range n with next (merged v) = b,
            weight u v := first.sum_fibres next _ a
  · rw [second.volumes a bound]
    calc (∑ x ∈ range m with next x = a, coarseVolume x)
        = ∑ x ∈ range m with next x = a, ∑ u ∈ range n with merged u = x, volume u :=
          sum_congr rfl fun x inX => first.volumes x (mem_range.mp (mem_filter.mp inX).1)
      _ = ∑ u ∈ range n with next (merged u) = a, volume u := first.sum_fibres next _ a

end Merges

end CommunityDetection
