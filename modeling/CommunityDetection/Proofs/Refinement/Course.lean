import CommunityDetection.Refinement
import CommunityDetection.Proofs.Cells
import CommunityDetection.Proofs.Graph.Weight
import CommunityDetection.Proofs.Sampler

/-!
# The course of refinement

Whatever a lawful sampler draws, refinement is a sequence of merges. Each takes a node that is still
alone and well connected to its community into a well connected part that it is joined to, named by
its first member. `Course` is this sequence, and `run_course` gives it for the whole phase.
-/

namespace CommunityDetection.Refinement

variable {α σ : Type} [Scalar α]

/-- A node may merge into a part, given with the weight from the node to it. -/
structure Joins (setting : Setting α) (inner : Cells α) (state : State α) (node : Nat)
    (part : Nat × α) : Prop where
  bound : node < setting.graph.nodeCount
  alone : state.alone.getD node false = true
  connected : ¬inner.read node <
    needed setting.gamma (setting.nodeVolumes.read node) (setting.whole node)
  listed : part ∈ weights setting state node
  other : part.1 ≠ node
  well : needed setting.gamma (state.volumes.read part.1) (setting.whole node) ≤ state.cuts.read part.1
  gains : 0 ≤ part.2 - setting.nodeVolumes.read node * state.volumes.read part.1 * setting.gamma

inductive Course (setting : Setting α) (inner : Cells α) (start : State α) : State α → Prop
  | refl : Course setting inner start start
  | merge {state : State α} {node : Nat} {part : Nat × α} (before : Course setting inner start state)
      (joins : Joins setting inner state node part) :
      Course setting inner start
        (state.merge node part.1 (setting.nodeVolumes.read node) (inner.read node)
          ((weights setting state node).get part.1))

theorem Joins.neighbor {setting : Setting α} {inner : Cells α} {state : State α} {node : Nat}
    {part : Nat × α} (joins : Joins setting inner state node part) :
    ∃ v, v ≠ node ∧ setting.graph.Adjacent node v ∧
      setting.assignment.of v = setting.assignment.of node ∧ state.parts.of v = part.1 := by
  have key : part.1 ∈ (weights setting state node).map Prod.fst := List.mem_map_of_mem joins.listed
  rw [weights, Tally.mem_keys_ofPairs, List.map_map] at key
  obtain ⟨entry, member, equal⟩ := List.mem_map.mp key
  obtain ⟨inRow, chosen⟩ := List.mem_filter.mp member
  simp only [Bool.and_eq_true, bne_iff_ne, beq_iff_eq] at chosen
  exact ⟨entry.1, chosen.1, ⟨entry, inRow, rfl⟩, chosen.2, equal⟩

theorem mem_candidates {setting : Setting α} {state : State α} {node chosen : Nat} {listed : Tally α}
    (member : chosen ∈ (candidates setting state node listed).map Prod.fst) :
    chosen = node ∨ ∃ part ∈ listed, part.1 = chosen ∧
      needed setting.gamma (state.volumes.read part.1) (setting.whole node) ≤ state.cuts.read part.1 ∧
      0 ≤ part.2 - setting.nodeVolumes.read node * state.volumes.read part.1 * setting.gamma := by
  simp only [candidates, List.map_cons, List.mem_cons] at member
  rcases member with alone | member
  · exact .inl alone
  · obtain ⟨entry, inList, rfl⟩ := List.mem_map.mp member
    obtain ⟨part, inTally, found⟩ := List.mem_filterMap.mp inList
    simp only [candidate?] at found
    split at found
    · rename_i fits
      cases found
      exact .inr ⟨part, inTally, rfl, fits⟩
    · cases found

theorem mayMerge_iff {setting : Setting α} {inner : Cells α} {state : State α} {node : Nat} :
    mayMerge setting inner state node = true ↔ state.alone.getD node false = true ∧
      ¬inner.read node < needed setting.gamma (setting.nodeVolumes.read node) (setting.whole node) := by
  simp [mayMerge]

theorem visit_of_mayMerge {setting : Setting α} (sampler : Sampler σ α) {inner : Cells α}
    {state : State α} {node : Nat} (may : mayMerge setting inner state node = true) (draws : σ) :
    let options := candidates setting state node (weights setting state node)
    let chosen := (sampler.choose options (maxGain options) draws).1
    (visit setting sampler inner state node draws).1 =
      if chosen = node then state
      else state.merge node chosen (setting.nodeVolumes.read node) (inner.read node)
        ((weights setting state node).get chosen) := by
  intro options chosen
  rw [visit, if_pos may]
  cases drawn : sampler.choose options (maxGain options) draws with
  | mk picked rest =>
    have equal : chosen = picked := by simp only [chosen, drawn]
    rw [equal]
    simp only [bind, StateT.bind, options] at drawn ⊢
    rw [drawn]
    by_cases same : picked = node
    · rw [if_pos same]
      simp only [if_pos same]
      rfl
    · rw [if_neg same]
      simp only [if_neg same]
      rfl

theorem size_parts_visit (setting : Setting α) (sampler : Sampler σ α) (inner : Cells α) (state : State α)
    (node : Nat) (draws : σ) :
    (visit setting sampler inner state node draws).1.parts.size = state.parts.size := by
  by_cases may : mayMerge setting inner state node = true
  · rw [visit_of_mayMerge sampler may]
    split
    · rfl
    · exact Assignment.size_assign _ _ _
  · rw [visit, if_neg may]
    rfl

theorem size_parts_run (setting : Setting α) (sampler : Sampler σ α) (draws : σ) :
    (run setting sampler draws).1.parts.size = setting.graph.nodeCount := by
  have visits (order : List Nat) (state : State α) (draws : σ) :
      (order.foldlM (visit setting sampler setting.innerWeights) state draws).1.parts.size =
        state.parts.size := by
    induction order generalizing state draws with
    | nil => rfl
    | cons node order ih =>
      rw [List.foldlM_cons]
      exact (ih _ _).trans (size_parts_visit setting sampler _ state node draws)
  exact (visits _ _ _).trans (Assignment.size_singletons _)

theorem visit_cases {setting : Setting α} {sampler : Sampler σ α} (lawful : sampler.Lawful)
    (inner : Cells α) (state : State α) (node : Nat)
    (size : state.alone.size = setting.graph.nodeCount) (draws : σ) :
    (visit setting sampler inner state node draws).1 = state ∨
      ∃ part, Joins setting inner state node part ∧
        (visit setting sampler inner state node draws).1 =
          state.merge node part.1 (setting.nodeVolumes.read node) (inner.read node)
            ((weights setting state node).get part.1) := by
  by_cases may : mayMerge setting inner state node = true
  · obtain ⟨alone, connected⟩ := mayMerge_iff.mp may
    have bound : node < setting.graph.nodeCount := by
      by_contra outside
      have none : state.alone[node]? = none := by simpa [size] using outside
      simp [none] at alone
    let options := candidates setting state node (weights setting state node)
    let draw := sampler.choose options (maxGain options) draws
    have drawn : draw.1 ∈ options.map Prod.fst :=
      lawful.choose_mem options (maxGain options) draws (by simp [options, candidates])
    have visited := visit_of_mayMerge sampler may draws
    rw [visited]
    rcases mem_candidates drawn with same | ⟨part, listed, equal, well, gains⟩
    · exact .inl (if_pos same)
    · by_cases same : draw.1 = node
      · exact .inl (if_pos same)
      · refine .inr ⟨part, ⟨bound, alone, connected, listed, equal ▸ same, well, gains⟩, ?_⟩
        rw [if_neg same, equal]
  · rw [visit, if_neg may]
    exact .inl rfl

omit [Scalar α] in
theorem size_alone_merge (state : State α) (node part : Nat) [Scalar α] (volume inner toPart : α) :
    (state.merge node part volume inner toPart).alone.size = state.alone.size := by
  simp [State.merge]

theorem Course.size_alone {setting : Setting α} {inner : Cells α} {start state : State α}
    (course : Course setting inner start state) (size : start.alone.size = setting.graph.nodeCount) :
    state.alone.size = setting.graph.nodeCount := by
  induction course with
  | refl => exact size
  | merge _ _ ih => exact (size_alone_merge _ _ _ _ _ _).trans ih

theorem Course.size_volumes {setting : Setting α} {inner : Cells α} {start state : State α}
    (course : Course setting inner start state) : state.volumes.size = start.volumes.size := by
  induction course with
  | refl => rfl
  | merge _ _ ih => simp [State.merge, ih]

theorem foldlM_visit_course {setting : Setting α} {sampler : Sampler σ α} (lawful : sampler.Lawful)
    {inner : Cells α} {start : State α} (size : start.alone.size = setting.graph.nodeCount)
    (order : List Nat) {state : State α} (course : Course setting inner start state) (draws : σ) :
    Course setting inner start (order.foldlM (visit setting sampler inner) state draws).1 := by
  induction order generalizing state draws with
  | nil => exact course
  | cons node order ih =>
    have visited := visit_cases lawful inner state node (course.size_alone size) draws
    rw [List.foldlM_cons]
    refine @ih (visit setting sampler inner state node draws).1 ?_
      (visit setting sampler inner state node draws).2
    rcases visited with same | ⟨part, joins, merged⟩
    · rw [same]
      exact course
    · rw [merged]
      exact course.merge joins

theorem run_course (setting : Setting α) {sampler : Sampler σ α} (lawful : sampler.Lawful) (draws : σ) :
    ∃ state, Course setting setting.innerWeights (setting.start setting.innerWeights) state ∧
      (run setting sampler draws).1 = ⟨state.parts, state.volumes⟩ :=
  ⟨_, foldlM_visit_course lawful (by simp [Setting.start])
    (sampler.order setting.graph.nodeCount draws).1 .refl (sampler.order setting.graph.nodeCount draws).2,
    rfl⟩

/-- Where nothing is merged, every node stays a part of its own. -/
theorem run_of_stays (setting : Setting α) {sampler : Sampler σ α} (stays : sampler.Stays) (draws : σ) :
    (run setting sampler draws).1 = ⟨.singletons setting.graph.nodeCount, setting.nodeVolumes⟩ := by
  have visits (order : List Nat) (state : State α) (draws : σ) :
      (order.foldlM (visit setting sampler setting.innerWeights) state draws).1 = state := by
    induction order generalizing draws with
    | nil => rfl
    | cons node order ih =>
      have visited : (visit setting sampler setting.innerWeights state node draws).1 = state := by
        by_cases may : mayMerge setting setting.innerWeights state node = true
        · rw [visit_of_mayMerge sampler may]
          exact if_pos (stays _ _ _ _)
        · rw [visit, if_neg may]
          rfl
      rw [List.foldlM_cons]
      show (order.foldlM (visit setting sampler setting.innerWeights)
        (visit setting sampler setting.innerWeights state node draws).1 _).1 = state
      rw [visited]
      exact ih _
  exact congrArg (fun state : State α => (⟨state.parts, state.volumes⟩ : Result α))
    (visits _ (setting.start setting.innerWeights) _)

theorem size_volumes_run (setting : Setting α) {sampler : Sampler σ α} (lawful : sampler.Lawful)
    (draws : σ) : (run setting sampler draws).1.volumes.size = setting.nodeVolumes.size := by
  obtain ⟨state, course, reached⟩ := run_course setting lawful draws
  rw [reached]
  exact course.size_volumes

end CommunityDetection.Refinement
