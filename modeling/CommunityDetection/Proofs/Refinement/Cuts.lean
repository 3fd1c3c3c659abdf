import CommunityDetection.Proofs.Assignment
import CommunityDetection.Proofs.Refinement.Parts
import CommunityDetection.Proofs.Span

/-!
# Cuts of parts

In exact arithmetic, on a graph whose weights are the same in both directions, the weight that refinement
keeps for a part is the weight from the part to the rest of its community (`PartCuts`). Taking a node into
a part adds what leads from the node to its community and takes away, twice, what leads from it to the part
(`cut_insert`), which is what a merge does.
-/

namespace CommunityDetection
open Finset

/-! ## Weights between sets of nodes -/

section Between

variable {K : Type} [Field K] {weight : Nat → Nat → K} {A B C : Finset Nat} {node : Nat}

def between (weight : Nat → Nat → K) (A B : Finset Nat) : K := ∑ u ∈ A, ∑ v ∈ B, weight u v

theorem between_comm (symmetric : ∀ u v, weight u v = weight v u) (A B : Finset Nat) :
    between weight A B = between weight B A := by
  rw [between, sum_comm]
  exact sum_congr rfl fun v _ => sum_congr rfl fun u _ => symmetric u v

theorem between_union (apart : Disjoint B C) :
    between weight A (B ∪ C) = between weight A B + between weight A C := by
  simp only [between, sum_union apart, sum_add_distrib]

theorem between_insert (outside : node ∉ A) :
    between weight (insert node A) B = between weight {node} B + between weight A B := by
  simp only [between, sum_insert outside, sum_singleton]

@[simp] theorem between_singleton : between weight {node} B = ∑ v ∈ B, weight node v :=
  sum_singleton _ _

theorem cut_insert (symmetric : ∀ u v, weight u v = weight v u) (within : A ⊆ B) (inside : node ∈ B)
    (outside : node ∉ A) :
    between weight (insert node A) (B \ insert node A) =
      between weight A (B \ A) +
        (between weight {node} (B.erase node) - 2 * between weight {node} A) := by
  have before : B \ A = {node} ∪ (B \ insert node A) := by
    ext v
    by_cases same : v = node <;> simp_all
  have others : B.erase node = A ∪ (B \ insert node A) := by
    ext v
    by_cases same : v = node
    · simp_all
    · by_cases member : v ∈ A
      · simp [member, same, within member]
      · simp [member, same]
  have apartNode : Disjoint {node} (B \ insert node A) := by simp
  have apart : Disjoint A (B \ insert node A) :=
    disjoint_sdiff.mono_right (sdiff_subset_sdiff subset_rfl (subset_insert _ _))
  rw [before, others, between_union apartNode, between_union apart, between_insert outside,
    between_comm symmetric A {node}]
  ring

end Between

namespace Refinement

section Communities

variable {α : Type}

def Setting.community (setting : Setting α) (node : Nat) : Finset Nat :=
  setting.assignment.members setting.graph.nodeCount (setting.assignment.of node)

variable {setting : Setting α}

theorem community_congr {u v : Nat} (same : setting.assignment.of u = setting.assignment.of v) :
    setting.community u = setting.community v := by
  rw [Setting.community, Setting.community, same]

variable {state : State α} {v : Nat}

theorem Split.community_eq (split : Split setting state) (bound : v < setting.graph.nodeCount) :
    setting.community (state.parts.of v) = setting.community v :=
  community_congr (split.inside v bound)

theorem Split.members_subset (split : Split setting state) (bound : v < setting.graph.nodeCount) :
    state.parts.members setting.graph.nodeCount (state.parts.of v) ⊆ setting.community v := by
  intro u member
  obtain ⟨bounded, same⟩ := Assignment.mem_members.mp member
  refine Assignment.mem_members.mpr ⟨bounded, ?_⟩
  rw [← split.inside u bounded, same, split.inside v bound]

variable [Scalar α] {inner : Cells α} {node : Nat} {part : Nat × α}

theorem Split.joined (closed : setting.graph.Closed) (split : Split setting state)
    (joins : Joins setting inner state node part) :
    part.1 ∈ state.parts.used setting.graph.nodeCount ∧
      setting.community part.1 = setting.community node ∧
      state.parts.members setting.graph.nodeCount part.1 ⊆ (setting.community node).erase node := by
  obtain ⟨v, -, adjacent, together, inPart⟩ := joins.neighbor
  have bound := adjacent.lt_right closed
  rw [← inPart, ← community_congr together]
  refine ⟨Assignment.mem_used.mpr ⟨v, bound, rfl⟩, split.community_eq bound, fun u member =>
    mem_erase.mpr ⟨?_, split.members_subset bound member⟩⟩
  rintro rfl
  have own := split.own_of_alone joins.bound joins.alone
  exact joins.other (inPart.symm.trans ((Assignment.mem_members.mp member).2.symm.trans own))

theorem Split.members_merge_self (split : Split setting state)
    (joins : Joins setting inner state node part) :
    (state.parts.assign node part.1).members setting.graph.nodeCount part.1 =
      insert node (state.parts.members setting.graph.nodeCount part.1) :=
  Assignment.members_assign_self joins.bound (joins.bound.trans_eq split.within.size.symm)

theorem Split.members_merge_of_ne (split : Split setting state)
    (joins : Joins setting inner state node part) {p : Nat} (ne : p ≠ part.1)
    (used : p ∈ (state.parts.assign node part.1).used setting.graph.nodeCount) :
    p ∈ state.parts.used setting.graph.nodeCount ∧
      (state.parts.assign node part.1).members setting.graph.nodeCount p =
        state.parts.members setting.graph.nodeCount p := by
  have own := split.own_of_alone joins.bound joins.alone
  rw [Assignment.mem_used_iff_card] at used
  rw [Assignment.members_assign_of_ne (joins.bound.trans_eq split.within.size.symm) ne] at used ⊢
  have notNode : p ≠ node := by
    rintro rfl
    obtain ⟨v, member⟩ := card_pos.mp used
    obtain ⟨other, bound, same⟩ := by simpa using member
    exact other (((split.alone p joins.bound).mp joins.alone v bound).mp same)
  have apart : node ∉ state.parts.members setting.graph.nodeCount p := by
    simp [own, Ne.symm notNode]
  rw [erase_eq_of_notMem apart] at used ⊢
  exact ⟨Assignment.mem_used_iff_card.mpr used, rfl⟩

theorem innerWeights_eq (setting : Setting α) : setting.innerWeights =
    ((List.range setting.graph.nodeCount).map fun node =>
      Scalar.total ((setting.inner node).map Prod.snd)).toArray := by
  rw [Setting.innerWeights, ← Span.nodes_even _ setting.concurrency Span.leastSize, List.map_flatMap]

end Communities

variable {K : Type} [Field K] [LinearOrder K] {setting : Setting K} {inner : Cells K} {state : State K}
  {node : Nat} {part : Nat × K}

omit [LinearOrder K] in
theorem sum_inner_filter (closed : setting.graph.Closed) (node : Nat) (p : Nat → Prop) [DecidablePred p] :
    (((setting.inner node).filter fun entry => p entry.1).map Prod.snd).sum =
      ∑ v ∈ (setting.community node).erase node with p v, setting.graph.weight node v := by
  have chosen : ((setting.community node).erase node).filter p =
      (range setting.graph.nodeCount).filter fun v =>
        p v ∧ v ≠ node ∧ setting.assignment.of v = setting.assignment.of node := by
    ext v
    simp only [Setting.community, mem_filter, mem_erase, Assignment.mem_members, mem_range]
    tauto
  rw [chosen, ← Graph.sum_row_filter closed, Setting.inner, List.filter_filter]
  congr 2
  refine List.filter_congr fun entry _ => ?_
  by_cases fits : p entry.1 <;> by_cases same : entry.1 = node <;>
    by_cases together : setting.assignment.of entry.1 = setting.assignment.of node <;>
    simp [fits, same, together]

theorem read_innerWeights (closed : setting.graph.Closed) (bound : node < setting.graph.nodeCount) :
    setting.innerWeights.read node =
      between setting.graph.weight {node} ((setting.community node).erase node) := by
  have all := sum_inner_filter closed node fun _ => True
  simp only [decide_true, List.filter_true, filter_true] at all
  rw [innerWeights_eq, between_singleton, ← all]
  simp [Cells.read, bound]

theorem get_weights (closed : setting.graph.Closed) (state : State K) (node part : Nat) :
    (weights setting state node).get part =
      ∑ v ∈ (setting.community node).erase node with state.parts.of v = part,
        setting.graph.weight node v := by
  rw [← sum_inner_filter closed, weights, Tally.get_ofPairs, weightAt, List.filter_map, List.map_map]
  rfl

/-- The cut kept for each part in use is the weight from its members to the rest of their community. -/
structure PartCuts (setting : Setting K) (state : State K) : Prop where
  size : state.cuts.size = setting.graph.nodeCount
  sums : ∀ p ∈ state.parts.used setting.graph.nodeCount, state.cuts.read p =
    between setting.graph.weight (state.parts.members setting.graph.nodeCount p)
      (setting.community p \ state.parts.members setting.graph.nodeCount p)

theorem partCuts_start (closed : setting.graph.Closed) :
    PartCuts setting (setting.start setting.innerWeights) := by
  refine ⟨by simp [Setting.start, innerWeights_eq], fun p used => ?_⟩
  have bound : p < setting.graph.nodeCount := by
    rwa [Setting.start, Assignment.used_singletons, mem_range] at used
  have own : (setting.start setting.innerWeights).parts.members setting.graph.nodeCount p = {p} :=
    Assignment.members_singletons bound
  rw [own, sdiff_singleton_eq_erase]
  exact read_innerWeights closed bound

theorem Split.get_weights (closed : setting.graph.Closed) (split : Split setting state)
    (joins : Joins setting inner state node part) :
    (weights setting state node).get part.1 =
      between setting.graph.weight {node} (state.parts.members setting.graph.nodeCount part.1) := by
  rw [Refinement.get_weights closed, between_singleton]
  refine sum_congr ?_ fun _ _ => rfl
  ext v
  rw [mem_filter]
  constructor
  · rintro ⟨inside, same⟩
    exact Assignment.mem_members.mpr ⟨(Assignment.mem_members.mp (mem_of_mem_erase inside)).1, same⟩
  · intro member
    exact ⟨(split.joined closed joins).2.2 member, (Assignment.mem_members.mp member).2⟩

theorem PartCuts.merge (closed : setting.graph.Closed) (symmetric : setting.graph.Symmetric)
    (split : Split setting state) (cuts : PartCuts setting state)
    (joins : Joins setting setting.innerWeights state node part) (volume : K) :
    PartCuts setting (state.merge node part.1 volume (setting.innerWeights.read node)
      ((weights setting state node).get part.1)) := by
  obtain ⟨used, together, others⟩ := split.joined closed joins
  have inPart : part.1 < state.cuts.size := by
    obtain ⟨v, bound, equal⟩ := Assignment.mem_used.mp used
    exact cuts.size ▸ equal ▸ split.within.bounded v bound
  refine ⟨by simpa [State.merge] using cuts.size, fun p usedLater => ?_⟩
  simp only [State.merge] at usedLater ⊢
  by_cases same : p = part.1
  · subst same
    have inside : node ∈ setting.community node := Assignment.mem_members.mpr ⟨joins.bound, rfl⟩
    rw [split.members_merge_self joins, Cells.read_add_self inPart, cuts.sums _ used, together,
      cut_insert symmetric (others.trans (erase_subset _ _)) inside
        (fun member => (mem_erase.mp (others member)).1 rfl),
      read_innerWeights closed joins.bound, split.get_weights closed joins]
    simp
  · obtain ⟨usedBefore, stays⟩ := split.members_merge_of_ne joins same usedLater
    rw [stays, Cells.read_add_of_ne _ (Ne.symm same), cuts.sums p usedBefore]

theorem Course.partCuts (closed : setting.graph.Closed) (symmetric : setting.graph.Symmetric)
    (course : Course setting setting.innerWeights (setting.start setting.innerWeights) state) :
    PartCuts setting state := by
  induction course with
  | refl => exact partCuts_start closed
  | merge before joins ih => exact ih.merge closed symmetric (before.split closed) joins _

end Refinement

end CommunityDetection
