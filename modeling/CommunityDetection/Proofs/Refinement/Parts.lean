import CommunityDetection.Proofs.Assignment
import CommunityDetection.Proofs.Graph.Linked
import CommunityDetection.Proofs.Quality
import CommunityDetection.Proofs.Refinement.Course
import CommunityDetection.Proofs.Volume

/-!
# Parts of communities

Every merge keeps the parts named by one of their members, inside one community and connected
(`Split`), whatever the numbers are; in exact arithmetic it also keeps their volumes right
(`PartVolumes`). So a phase gives connected parts of the communities (`run_refines`) with the summed
volumes of their members (`run_volumes`).
-/

namespace CommunityDetection.Refinement
open Finset

section Discrete

variable {α σ : Type} [Scalar α]

/-- Parts are named by members and lie inside communities; a node that is alone is the only member of
the part that it names; and every member is linked to the name inside the part. -/
structure Split (setting : Setting α) (state : State α) : Prop where
  within : state.parts.Within setting.graph.nodeCount
  named : ∀ v < setting.graph.nodeCount, state.parts.of (state.parts.of v) = state.parts.of v
  inside : ∀ v < setting.graph.nodeCount,
    setting.assignment.of (state.parts.of v) = setting.assignment.of v
  size_alone : state.alone.size = setting.graph.nodeCount
  alone : ∀ v < setting.graph.nodeCount, (state.alone.getD v false = true ↔
    ∀ u < setting.graph.nodeCount, state.parts.of u = v ↔ u = v)
  linked : ∀ v < setting.graph.nodeCount,
    setting.graph.Linked (fun u => state.parts.of u = state.parts.of v) v (state.parts.of v)

variable {setting : Setting α} {inner : Cells α} {state : State α} {node : Nat} {part : Nat × α}

omit [Scalar α] in
theorem split_start (setting : Setting α) (inner : Cells α) : Split setting (setting.start inner) := by
  have own : ∀ v < setting.graph.nodeCount, (setting.start inner).parts.of v = v :=
    fun v bound => Assignment.of_singletons bound
  refine ⟨Assignment.within_singletons _, fun v bound => ?_, fun v bound => ?_, by simp [Setting.start],
    fun v bound => ?_, fun v bound => ?_⟩
  · rw [own v bound, own v bound]
  · rw [own v bound]
  · refine iff_of_true (by simp [Setting.start, bound]) fun u bounded => ?_
    rw [own u bounded]
  · rw [own v bound]
    exact .refl _ _ _

theorem getD_alone_merge (state : State α) (node part : Nat) (volume inner toPart : α) (v : Nat) :
    (state.merge node part volume inner toPart).alone.getD v false = true ↔
      v ≠ node ∧ v ≠ part ∧ state.alone.getD v false = true := by
  have outside (index : Nat) (beyond : ¬index < state.alone.size) :
      state.alone.getD index false = false := by simp [beyond]
  rw [State.merge, getD_setIfInBounds, getD_setIfInBounds, Array.size_setIfInBounds]
  by_cases atNode : node = v
  · subst atNode
    by_cases bound : node < state.alone.size
    · simp [bound]
    · simp [bound, outside]
  · by_cases atPart : part = v
    · subst atPart
      by_cases bound : part < state.alone.size
      · simp [bound, atNode]
      · simp [bound, atNode, outside]
    · simp [atNode, atPart, Ne.symm atNode, Ne.symm atPart]

omit [Scalar α] in
theorem Split.own_of_alone (split : Split setting state) (bound : node < setting.graph.nodeCount)
    (alone : state.alone.getD node false = true) : state.parts.of node = node :=
  ((split.alone node bound).mp alone node bound).mpr rfl

theorem Split.of_merge_self (split : Split setting state)
    (joins : Joins setting inner state node part) (name : Nat) :
    (state.parts.assign node name).of node = name :=
  Assignment.of_assign_self (joins.bound.trans_eq split.within.size.symm) _

theorem Split.alone_merge (split : Split setting state) (joins : Joins setting inner state node part)
    {u : Nat} (bounded : u < setting.graph.nodeCount) :
    (u ≠ node ∧ u ≠ part.1 ∧ state.alone.getD u false = true) ↔
      ∀ w < setting.graph.nodeCount, (state.parts.assign node part.1).of w = u ↔ w = u := by
  have bound := joins.bound
  have own := split.own_of_alone bound joins.alone
  have atNode := split.of_merge_self joins part.1
  have elsewhere : ∀ w, w ≠ node → (state.parts.assign node part.1).of w = state.parts.of w :=
    fun w ne => Assignment.of_assign_of_ne _ ne.symm _
  constructor
  · rintro ⟨notNode, notPart, alone⟩ w boundW
    by_cases same : w = node
    · rw [same, atNode]
      exact iff_of_false (Ne.symm notPart) (Ne.symm notNode)
    · rw [elsewhere w same]
      exact (split.alone u bounded).mp alone w boundW
  · intro all
    have notNode : u ≠ node := by
      rintro rfl
      exact joins.other (atNode ▸ (all u bounded).mpr rfl)
    have notPart : u ≠ part.1 := by
      rintro rfl
      exact joins.other ((all node bound).mp atNode).symm
    refine ⟨notNode, notPart, (split.alone u bounded).mpr fun w boundW => ?_⟩
    by_cases same : w = node
    · rw [same, own]
    · rw [← elsewhere w same]
      exact all w boundW

theorem Split.linked_merge (closed : setting.graph.Closed) (split : Split setting state)
    (joins : Joins setting inner state node part) {u : Nat} (bounded : u < setting.graph.nodeCount) :
    setting.graph.Linked (fun w => (state.parts.assign node part.1).of w =
      (state.parts.assign node part.1).of u) u ((state.parts.assign node part.1).of u) := by
  obtain ⟨v, -, adjacent, -, inPart⟩ := joins.neighbor
  have bound := joins.bound
  have own := split.own_of_alone bound joins.alone
  have atNode := split.of_merge_self joins part.1
  have elsewhere : ∀ w, w ≠ node → (state.parts.assign node part.1).of w = state.parts.of w :=
    fun w ne => Assignment.of_assign_of_ne _ ne.symm _
  have kept : ∀ w, state.parts.of w = state.parts.of v →
      (state.parts.assign node part.1).of w = part.1 := by
    intro w inside
    have ne : w ≠ node := by
      rintro rfl
      exact joins.other (inPart ▸ own ▸ inside).symm
    rw [elsewhere w ne, inside, inPart]
  by_cases same : u = node
  · -- The node is linked to its new part by the neighbour that it has there.
    rw [same, atNode]
    have vInside := kept v rfl
    apply (Graph.Linked.single adjacent atNode vInside).trans
    rw [← inPart] at kept ⊢
    exact (split.linked v (adjacent.lt_right closed)).mono fun w inside => kept w inside
  · rw [elsewhere u same]
    refine (split.linked u bounded).mono fun w inside => ?_
    -- No member of another part is the node, which was alone in its own.
    have ne : w ≠ node := by
      rintro rfl
      have only := (split.alone w bound).mp joins.alone u bounded
      exact same (only.mp (inside.symm.trans own))
    rw [elsewhere w ne, inside]

theorem Split.merge (closed : setting.graph.Closed) (split : Split setting state)
    (joins : Joins setting inner state node part) (volume toNode toPart : α) :
    Split setting (state.merge node part.1 volume toNode toPart) := by
  obtain ⟨v, -, adjacent, sameCommunity, inPart⟩ := joins.neighbor
  have boundV := adjacent.lt_right closed
  have inPartBound : part.1 < setting.graph.nodeCount := inPart ▸ split.within.bounded v boundV
  have partNamed : state.parts.of part.1 = part.1 := inPart ▸ split.named v boundV
  have atNode := split.of_merge_self joins part.1
  have elsewhere : ∀ u, u ≠ node → (state.parts.assign node part.1).of u = state.parts.of u :=
    fun u ne => Assignment.of_assign_of_ne _ ne.symm _
  -- Members of other parts stay where they are, so only the part of the node changes.
  refine ⟨split.within.assign node inPartBound, fun u bounded => ?_, fun u bounded => ?_,
    (size_alone_merge _ _ _ _ _ _).trans split.size_alone, fun u bounded => ?_, fun u bounded => ?_⟩
  · simp only [State.merge]
    by_cases same : u = node
    · rw [same, atNode, elsewhere _ joins.other, partNamed]
    · have ne : state.parts.of u ≠ node :=
        fun moved => same (((split.alone node joins.bound).mp joins.alone u bounded).mp moved)
      rw [elsewhere u same, elsewhere _ ne, split.named u bounded]
  · simp only [State.merge]
    by_cases same : u = node
    · rw [same, atNode, ← inPart, split.inside v boundV, sameCommunity]
    · rw [elsewhere u same, split.inside u bounded]
  · rw [getD_alone_merge]
    exact split.alone_merge joins bounded
  · exact split.linked_merge closed joins bounded

theorem Course.split (closed : setting.graph.Closed)
    (course : Course setting inner (setting.start inner) state) : Split setting state := by
  induction course with
  | refl => exact split_start setting inner
  | merge _ joins ih => exact ih.merge closed joins _ _ _

/-- What a phase gives: parts of the communities, named by members and connected. -/
structure Refines (setting : Setting α) (result : Result α) : Prop where
  within : result.parts.Within setting.graph.nodeCount
  named : ∀ v < setting.graph.nodeCount, result.parts.of (result.parts.of v) = result.parts.of v
  inside : ∀ v < setting.graph.nodeCount,
    setting.assignment.of (result.parts.of v) = setting.assignment.of v
  linked : ∀ v < setting.graph.nodeCount,
    setting.graph.Linked (fun u => result.parts.of u = result.parts.of v) v (result.parts.of v)

theorem run_refines {sampler : Sampler σ α} (lawful : sampler.Lawful) (closed : setting.graph.Closed)
    (draws : σ) : Refines setting (run setting sampler draws).1 := by
  obtain ⟨state, course, reached⟩ := run_course setting lawful draws
  have split := course.split closed
  rw [reached]
  exact ⟨split.within, split.named, split.inside, split.linked⟩

end Discrete

section Exact

variable {K σ : Type} [Field K] [LinearOrder K]

structure PartVolumes (setting : Setting K) (state : State K) : Prop where
  size : state.volumes.size = setting.graph.nodeCount
  sums : ∀ p < setting.graph.nodeCount, state.volumes.read p =
    ∑ v ∈ range setting.graph.nodeCount with state.parts.of v = p, setting.nodeVolumes.read v

variable {setting : Setting K} {inner : Cells K} {state : State K} {node : Nat} {part : Nat × K}

theorem partVolumes_start (size : setting.nodeVolumes.size = setting.graph.nodeCount)
    (inner : Cells K) : PartVolumes setting (setting.start inner) := by
  refine ⟨size, fun p bound => ?_⟩
  have own : ((range setting.graph.nodeCount).filter fun v =>
      (setting.start inner).parts.of v = p) = {p} := Assignment.members_singletons bound
  rw [own, sum_singleton]
  rfl

theorem PartVolumes.merge (closed : setting.graph.Closed) (split : Split setting state)
    (volumes : PartVolumes setting state) (joins : Joins setting inner state node part)
    (toNode toPart : K) :
    PartVolumes setting (state.merge node part.1 (setting.nodeVolumes.read node) toNode toPart) := by
  obtain ⟨v, -, adjacent, -, inPart⟩ := joins.neighbor
  have inPartBound : part.1 < setting.graph.nodeCount :=
    inPart ▸ split.within.bounded v (adjacent.lt_right closed)
  refine ⟨by simpa [State.merge] using volumes.size, fun p bound => ?_⟩
  change (((state.volumes.add part.1 (setting.nodeVolumes.read node)).write node 0).read p) =
    ∑ v ∈ range setting.graph.nodeCount with (state.parts.assign node part.1).of v = p,
      setting.nodeVolumes.read v
  rw [Assignment.of_assign (joins.bound.trans_eq split.within.size.symm),
    sum_update_members joins.bound, split.own_of_alone joins.bound joins.alone,
    ← volumes.sums p bound]
  by_cases same : node = p
  · subst same
    rw [Cells.read_write_self (by simpa [volumes.size] using bound), if_pos rfl, if_neg joins.other,
      volumes.sums node bound]
    have only : ((range setting.graph.nodeCount).filter fun v => state.parts.of v = node) = {node} := by
      ext u
      simp only [mem_filter, mem_range, mem_singleton]
      constructor
      · rintro ⟨bounded, moved⟩
        exact ((split.alone node bound).mp joins.alone u bounded).mp moved
      · rintro rfl
        exact ⟨bound, split.own_of_alone bound joins.alone⟩
    rw [only, sum_singleton]
    ring
  · rw [Cells.read_write_of_ne _ same, Cells.read_add_exact (by simpa [volumes.size] using inPartBound),
      if_neg same, add_zero]

theorem Course.partVolumes (closed : setting.graph.Closed)
    (size : setting.nodeVolumes.size = setting.graph.nodeCount)
    (course : Course setting inner (setting.start inner) state) : PartVolumes setting state := by
  induction course with
  | refl => exact partVolumes_start size inner
  | merge before joins ih => exact ih.merge closed (before.split closed) joins _ _

theorem run_volumes (setting : Setting K) {sampler : Sampler σ K} (lawful : sampler.Lawful) (closed : setting.graph.Closed)
    (size : setting.nodeVolumes.size = setting.graph.nodeCount) (draws : σ) :
    ∀ p < setting.graph.nodeCount, (run setting sampler draws).1.volumes.read p =
      ∑ v ∈ range setting.graph.nodeCount with (run setting sampler draws).1.parts.of v = p,
        setting.nodeVolumes.read v := by
  obtain ⟨state, course, reached⟩ := run_course setting lawful draws
  rw [reached]
  exact (course.partVolumes closed size).sums

end Exact

end CommunityDetection.Refinement
