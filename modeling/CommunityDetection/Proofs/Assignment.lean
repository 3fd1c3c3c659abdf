import CommunityDetection.Proofs.Cells

/-!
# Communities in use

The members of each community and the communities in use, as finite sets of nodes, and what becomes of
them when a node is put into another community.
-/

namespace CommunityDetection
open Finset

theorem countP_range (n : Nat) (p : Nat → Prop) [DecidablePred p] :
    (List.range n).countP (p ·) = ((range n).filter p).card := by
  rw [List.countP_eq_length_filter, ← List.toFinset_card_of_nodup (List.nodup_range.filter _),
    List.toFinset_filter, List.toFinset_range]
  simp

namespace Assignment

def members (assignment : Assignment) (n community : Nat) : Finset Nat :=
  (range n).filter (assignment.of · = community)

def used (assignment : Assignment) (n : Nat) : Finset Nat := (range n).image assignment.of

variable {assignment : Assignment} {n node community other : Nat}

@[simp] theorem mem_members :
    node ∈ assignment.members n community ↔ node < n ∧ assignment.of node = community := by
  simp [members]

theorem filter_range_eq {listed : List Nat} (increasing : listed.Pairwise (· < ·))
    (same : ∀ v, v ∈ listed ↔ v < n ∧ assignment.of v = community) :
    ((List.range n).filter fun v => assignment.of v = community) = listed := by
  refine List.Pairwise.eq_of_mem_iff (List.pairwise_lt_range.filter _) increasing fun v => ?_
  rw [List.mem_filter, List.mem_range, decide_eq_true_iff, same]

@[simp] theorem mem_used : community ∈ assignment.used n ↔ ∃ v < n, assignment.of v = community := by
  simp [used]

theorem mem_used_iff_card : community ∈ assignment.used n ↔ 0 < (assignment.members n community).card := by
  rw [card_pos, mem_used]
  constructor
  · rintro ⟨v, bound, same⟩
    exact ⟨v, mem_members.mpr ⟨bound, same⟩⟩
  · rintro ⟨v, member⟩
    exact ⟨v, mem_members.mp member⟩

theorem card_used_le (assignment : Assignment) (n : Nat) : (assignment.used n).card ≤ n :=
  card_image_le.trans_eq (card_range n)

theorem used_eq_filter (within : assignment.Within n) :
    assignment.used n = (range n).filter fun community => 0 < (assignment.members n community).card := by
  ext community
  rw [mem_filter, mem_range, ← mem_used_iff_card, iff_and_self, mem_used]
  rintro ⟨v, bound, rfl⟩
  exact within.bounded v bound

theorem used_singletons (n : Nat) : (singletons n).used n = range n := by
  ext community
  rw [mem_used, mem_range]
  constructor
  · rintro ⟨v, bound, rfl⟩
    rwa [of_singletons bound]
  · exact fun bound => ⟨community, bound, of_singletons bound⟩

theorem members_singletons (bound : node < n) : (singletons n).members n node = {node} := by
  ext v
  rw [mem_members, mem_singleton]
  constructor
  · rintro ⟨bounded, same⟩
    rwa [← of_singletons bounded]
  · rintro rfl
    exact ⟨bound, of_singletons bound⟩

theorem mem_used_toArray {listed : List Nat} :
    community ∈ used listed.toArray listed.length ↔ community ∈ listed := by
  rw [mem_used, List.mem_iff_getElem]
  constructor
  · rintro ⟨v, bound, same⟩
    exact ⟨v, bound, by simpa [of, bound] using same⟩
  · rintro ⟨v, bound, same⟩
    exact ⟨v, bound, by simpa [of, bound] using same⟩

/-! ## Putting a node into another community -/

theorem members_assign_self (bound : node < n) (inside : node < assignment.size) :
    (assignment.assign node community).members n community =
      Insert.insert node (assignment.members n community) := by
  ext v
  rw [mem_members, mem_insert, mem_members]
  by_cases same : node = v
  · subst same
    simp [bound, of_assign_self inside]
  · simp [of_assign_of_ne _ same, Ne.symm same]

theorem members_assign_of_ne (inside : node < assignment.size) (ne : other ≠ community) :
    (assignment.assign node community).members n other =
      (assignment.members n other).erase node := by
  ext v
  rw [mem_members, mem_erase, mem_members]
  by_cases same : node = v
  · subst same
    simp [of_assign_self inside, ne.symm]
  · simp [of_assign_of_ne _ same, Ne.symm same]

theorem used_assign (bound : node < n) (inside : node < assignment.size)
    (leaves : community ≠ assignment.of node) :
    (assignment.assign node community).used n = Insert.insert community
      (if (assignment.members n (assignment.of node)).card = 1 then
        (assignment.used n).erase (assignment.of node) else assignment.used n) := by
  have home : node ∈ assignment.members n (assignment.of node) := by simp [bound]
  ext other
  rw [mem_insert, mem_used_iff_card]
  by_cases same : other = community
  · subst same
    simp [members_assign_self bound inside]
  · rw [members_assign_of_ne inside same]
    by_cases left : other = assignment.of node
    · subst left
      rw [card_erase_of_mem home]
      have present := card_pos.mpr ⟨node, home⟩
      split
      · simp_all
      · have used := mem_used_iff_card.mpr present
        simp only [same, used, or_true, iff_true]
        omega
    · have apart : node ∉ assignment.members n other := by simp [Ne.symm left]
      rw [erase_eq_of_notMem apart, ← mem_used_iff_card]
      split <;> simp [same, left]

end Assignment

end CommunityDetection
