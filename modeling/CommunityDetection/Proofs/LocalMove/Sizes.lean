import CommunityDetection.Proofs.Assignment
import CommunityDetection.Proofs.LocalMove.Trail

/-!
# Sizes of communities

Where communities are named by nodes and the given number of communities is right, the moves can start
(`exists_start`). Every move keeps the sizes and the number of communities in use right (`Counted`),
whatever the gains are.
-/

namespace CommunityDetection.LocalMove
open Finset

variable {α : Type} {n : Nat} {assignment : Assignment} {state start : State α}

structure Counted (n : Nat) (state : State α) : Prop where
  within : state.assignment.Within n
  size : state.sizes.size = n
  sizes : ∀ community < n, state.sizeOf community = (state.assignment.members n community).card
  occupied : state.occupied = (state.assignment.used n).card

/-- Two nodes with one community leave fewer communities than nodes. -/
theorem Counted.occupied_lt (counted : Counted n state) {u v : Nat} (bound : u < n) (bounded : v < n)
    (apart : u ≠ v) (shared : state.assignment.of u = state.assignment.of v) : state.occupied < n := by
  rw [counted.occupied]
  refine (Assignment.card_used_le _ _).lt_of_ne fun all => apart ?_
  have injective := card_image_iff.mp (all.trans (card_range _).symm)
  exact injective (mem_coe.mpr (mem_range.mpr bound)) (mem_coe.mpr (mem_range.mpr bounded)) shared

/-! ## The start -/

theorem countSizes_eq (n : Nat) (assignment : Assignment) :
    (countSizes n assignment).size = n ∧ ∀ community < n,
      (countSizes n assignment).getD community 0 = (assignment.members n community).card := by
  let count (sizes : Array Nat) (node : Nat) : Array Nat :=
    sizes.setIfInBounds (assignment.of node) (sizes.getD (assignment.of node) 0 + 1)
  have counted (nodes : List Nat) (sizes : Array Nat) :
      (nodes.foldl count sizes).size = sizes.size ∧ ∀ community < sizes.size,
        (nodes.foldl count sizes).getD community 0 =
          sizes.getD community 0 + nodes.countP fun node => assignment.of node = community := by
    induction nodes generalizing sizes with
    | nil => simp
    | cons node nodes ih =>
      have size : (count sizes node).size = sizes.size := Array.size_setIfInBounds
      obtain ⟨kept, sums⟩ := ih (count sizes node)
      rw [size] at kept sums
      refine ⟨kept, fun community bound => ?_⟩
      rw [List.foldl_cons, sums community bound, getD_setIfInBounds, List.countP_cons]
      by_cases same : assignment.of node = community
      · simp only [same, bound, and_self, if_true, decide_true]
        omega
      · simp [same]
  obtain ⟨size, sums⟩ := counted (List.range n) (Array.replicate n 0)
  rw [Array.size_replicate] at size sums
  refine ⟨size, fun community bound => (sums community bound).trans ?_⟩
  rw [getD_replicate, zero_add, countP_range]
  rfl

theorem countP_countSizes (within : assignment.Within n) :
    (countSizes n assignment).toList.countP (0 < ·) = (assignment.used n).card := by
  have listed : (countSizes n assignment).toList =
      (List.range n).map fun community => (assignment.members n community).card := by
    obtain ⟨size, sums⟩ := countSizes_eq n assignment
    apply List.ext_getElem
    · simp [size]
    · intro community left right
      have bound : community < n := by simpa using right
      simpa [size, bound] using sums community bound
  rw [listed, List.countP_map, Assignment.used_eq_filter within, ← countP_range]
  rfl

theorem exists_start (within : assignment.Within n) (volumes : Cells α) {tracked : Nat}
    (counts : tracked = (assignment.used n).card) :
    ∃ state, LocalMove.start n assignment volumes tracked = .ok state ∧ Counted n state := by
  obtain ⟨size, sums⟩ := countSizes_eq n assignment
  have few : ¬n < (assignment.used n).card := (assignment.card_used_le n).not_gt
  have named : (List.range n).find? (fun node => n ≤ assignment.of node) = none := by
    simpa using within.bounded
  subst counts
  refine ⟨⟨assignment, volumes, countSizes n assignment, (assignment.used n).card⟩, ?_, within, size,
    sums, rfl⟩
  simp only [LocalMove.start, few, named, countP_countSizes within, if_true, if_false]

/-! ## Moves -/

variable [Scalar α] {setting : Setting α}

section Move

variable {node community : Nat}

omit [Scalar α] in
theorem entered_eq (leaves : community ≠ state.assignment.of node) :
    (state.sizes.setIfInBounds (state.assignment.of node)
      (state.sizeOf (state.assignment.of node) - 1)).getD community 0 = state.sizeOf community := by
  rw [getD_setIfInBounds, if_neg fun both => leaves both.1.symm]
  rfl

theorem Counted.sizeOf_move (counted : Counted n state) (bound : node < n) (inside : community < n)
    (leaves : community ≠ state.assignment.of node) (volume : α) {other : Nat} (bounded : other < n) :
    (state.move node volume community).sizeOf other =
      ((state.assignment.assign node community).members n other).card := by
  have home := counted.within.bounded node bound
  have listed : node < state.assignment.size := bound.trans_eq counted.within.size.symm
  have member : node ∈ state.assignment.members n (state.assignment.of node) := by simp [bound]
  have absent : node ∉ state.assignment.members n community := by simp [leaves.symm]
  show (Array.setIfInBounds _ community _).getD other 0 = _
  rw [entered_eq leaves, getD_setIfInBounds, Array.size_setIfInBounds, counted.size]
  by_cases same : community = other
  · subst same
    rw [if_pos ⟨rfl, inside⟩, Assignment.members_assign_self bound listed,
      card_insert_of_notMem absent, counted.sizes community bounded]
  · rw [if_neg fun both => same both.1, Assignment.members_assign_of_ne listed (Ne.symm same),
      getD_setIfInBounds, counted.size]
    by_cases left : state.assignment.of node = other
    · subst left
      rw [if_pos ⟨rfl, home⟩, counted.sizes _ home, card_erase_of_mem member]
    · have apart : node ∉ state.assignment.members n other := by simp [left]
      rw [if_neg fun both => left both.1, erase_eq_of_notMem apart]
      exact counted.sizes other bounded

theorem Counted.occupied_move (counted : Counted n state) (bound : node < n) (inside : community < n)
    (leaves : community ≠ state.assignment.of node) (volume : α) :
    (state.move node volume community).occupied =
      ((state.assignment.assign node community).used n).card := by
  have home := counted.within.bounded node bound
  have listed : node < state.assignment.size := bound.trans_eq counted.within.size.symm
  have used : state.assignment.of node ∈ state.assignment.used n :=
    Assignment.mem_used.mpr ⟨node, bound, rfl⟩
  have some := card_pos.mpr ⟨_, used⟩
  have empty : community ∈ state.assignment.used n ↔ state.sizeOf community ≠ 0 := by
    rw [Assignment.mem_used_iff_card, counted.sizes community inside, Nat.pos_iff_ne_zero]
  show state.occupied - _ + _ = _
  rw [entered_eq leaves, Assignment.used_assign bound listed leaves, counted.occupied,
    counted.sizes _ home]
  -- A community falls out of use with its last member, and another one may come into use.
  by_cases last : (state.assignment.members n (state.assignment.of node)).card = 1
  · by_cases vacant : state.sizeOf community = 0
    · have fresh : community ∉ (state.assignment.used n).erase (state.assignment.of node) :=
        fun member => empty.mp (mem_of_mem_erase member) vacant
      rw [if_pos last, if_pos vacant, if_pos last, card_insert_of_notMem fresh, card_erase_of_mem used]
    · have known : community ∈ (state.assignment.used n).erase (state.assignment.of node) :=
        mem_erase.mpr ⟨leaves, empty.mpr vacant⟩
      rw [if_pos last, if_neg vacant, if_pos last, insert_eq_of_mem known, card_erase_of_mem used,
        add_zero]
  · by_cases vacant : state.sizeOf community = 0
    · have fresh : community ∉ state.assignment.used n := fun member => empty.mp member vacant
      rw [if_neg last, if_pos vacant, if_neg last, card_insert_of_notMem fresh, Nat.sub_zero]
    · rw [if_neg last, if_neg vacant, if_neg last, insert_eq_of_mem (empty.mpr vacant), Nat.sub_zero,
        add_zero]

theorem Counted.move (counted : Counted n state) (bound : node < n) (inside : community < n)
    (leaves : community ≠ state.assignment.of node) (volume : α) :
    Counted n (state.move node volume community) := by
  constructor
  · exact counted.within.assign node inside
  · simp [State.move, counted.size]
  · exact fun other bounded => counted.sizeOf_move bound inside leaves volume bounded
  · exact counted.occupied_move bound inside leaves volume

end Move

theorem Trail.counted {count : Nat} (trail : Trail setting start count state)
    (closed : setting.graph.Closed) (counted : Counted setting.graph.nodeCount start) :
    Counted setting.graph.nodeCount state := by
  apply trail.keeps _ counted
  intro state node community bound counted moves
  obtain ⟨weight, fits, -⟩ := target?_eq_some moves
  obtain ⟨v, -, adjacent, same⟩ := fits.neighbor
  have inside := counted.within.bounded v (adjacent.lt_right closed)
  rw [same] at inside
  exact counted.move bound inside fits.leaves _

end CommunityDetection.LocalMove
