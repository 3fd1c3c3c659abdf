import CommunityDetection.Proofs.LocalMove.Programs
import CommunityDetection.Proofs.LocalMove.Trail

/-!
# Nodes at rest

A node is at rest where no candidate exceeds its stay (`target?_of_content`), so it is without
neighbours. A leaf, which has one neighbour besides itself, has a single candidate: it
follows its neighbour if that is better than to stay, and is at rest else.
-/

namespace CommunityDetection.LocalMove

variable {α : Type} [Scalar α] {setting : Setting α} {state : State α} {node neighbor : Nat} {weight : α}

omit [Scalar α] in
theorem mem_others {G : Graph α} {entry : Nat × α} :
    entry ∈ others G node ↔ entry ∈ G.row node ∧ entry.1 ≠ node := by
  simp [others]

theorem weights_eq (setting : Setting α) (assignment : Assignment) (node : Nat) :
    weights setting assignment node =
      Tally.ofPairs ((others setting.graph node).map fun entry => (assignment.of entry.1, entry.2)) := rfl

theorem consider_skip {best entry : Nat × α}
    (skips : entry.1 = state.assignment.of node ∨ barred state (state.assignment.of node) entry.1 = true) :
    consider setting state node best entry = best := if_pos skips

theorem consider_take {best entry : Nat × α} (leaves : entry.1 ≠ state.assignment.of node)
    (allowed : barred state (state.assignment.of node) entry.1 = false)
    (better : best.2 < join setting state node entry) :
    consider setting state node best entry = (entry.1, join setting state node entry) := by
  rw [consider, if_neg (by simp [leaves, allowed]), if_pos better]

/-- A node is at rest where no candidate exceeds its stay. -/
theorem target?_of_content (content : ∀ candidate, Candidate setting state node candidate →
    ¬stay setting state node < join setting state node candidate) : target? setting state node = none := by
  have all (entries : List (Nat × α))
      (listed : ∀ entry ∈ entries, entry ∈ weights setting state.assignment node) :
      entries.foldl (consider setting state node) (state.assignment.of node, stay setting state node) =
        (state.assignment.of node, stay setting state node) := by
    induction entries with
    | nil => rfl
    | cons entry entries ih =>
      have kept : consider setting state node (state.assignment.of node, stay setting state node) entry =
          (state.assignment.of node, stay setting state node) := by
        unfold consider
        split
        · rfl
        · rename_i accepted
          rw [not_or, Bool.not_eq_true] at accepted
          exact if_neg (content entry ⟨listed entry List.mem_cons_self, accepted.1, accepted.2⟩)
      rw [List.foldl_cons, kept]
      exact ih fun other member => listed other (List.mem_cons_of_mem _ member)
  rw [target?, best_eq_foldl, all _ fun _ member => member, if_pos rfl]

theorem target?_of_isolated (isolated : others setting.graph node = []) : target? setting state node = none := by
  refine target?_of_content fun candidate fits => ?_
  obtain ⟨v, apart, ⟨entry, member, rfl⟩, -⟩ := fits.neighbor
  have listed := mem_others.mpr ⟨member, apart⟩
  rw [isolated] at listed
  cases listed

/-! ## Leaves -/

section Leaves

variable (leaf : others setting.graph node = [(neighbor, weight)])

include leaf

omit [Scalar α] in
theorem eq_of_adjacent_leaf {other : Nat} (adjacent : setting.graph.Adjacent node other) (apart : other ≠ node) :
    other = neighbor := by
  obtain ⟨entry, member, rfl⟩ := adjacent
  have listed := mem_others.mpr ⟨member, apart⟩
  rw [leaf, List.mem_singleton] at listed
  rw [listed]

theorem weights_leaf (assignment : Assignment) :
    weights setting assignment node = [(assignment.of neighbor, weight)] := by
  rw [weights_eq, leaf]
  rfl

theorem stay_leaf (outside : state.assignment.of neighbor ≠ state.assignment.of node) :
    stay setting state node = gain setting.gamma (setting.nodeVolumes.read node) 0
      (state.communityVolumes.read (state.assignment.of node) - setting.nodeVolumes.read node) := by
  rw [stay, weights_leaf leaf, Tally.get_cons, if_neg outside.symm]
  rfl

theorem target?_leaf_eq_none (content : state.assignment.of neighbor ≠ state.assignment.of node →
    barred state (state.assignment.of node) (state.assignment.of neighbor) = false →
    ¬gain setting.gamma (setting.nodeVolumes.read node) 0
        (state.communityVolumes.read (state.assignment.of node) - setting.nodeVolumes.read node) <
      gain setting.gamma (setting.nodeVolumes.read node) weight
        (state.communityVolumes.read (state.assignment.of neighbor))) :
    target? setting state node = none := by
  refine target?_of_content fun candidate fits => ?_
  have only := fits.listed
  rw [weights_leaf leaf, List.mem_singleton] at only
  obtain rfl := only
  rw [stay_leaf leaf fits.leaves]
  exact content fits.leaves fits.allowed

theorem target?_leaf_of_inside (together : state.assignment.of neighbor = state.assignment.of node) :
    target? setting state node = none := target?_leaf_eq_none leaf fun outside => absurd together outside

theorem target?_leaf_eq_some (outside : state.assignment.of neighbor ≠ state.assignment.of node)
    (allowed : barred state (state.assignment.of node) (state.assignment.of neighbor) = false)
    (better : gain setting.gamma (setting.nodeVolumes.read node) 0
        (state.communityVolumes.read (state.assignment.of node) - setting.nodeVolumes.read node) <
      gain setting.gamma (setting.nodeVolumes.read node) weight
        (state.communityVolumes.read (state.assignment.of neighbor))) :
    target? setting state node = some (state.assignment.of neighbor) := by
  rw [← stay_leaf leaf outside] at better
  rw [target?, best_eq_foldl, weights_leaf leaf, List.foldl_cons, List.foldl_nil,
    consider_take outside allowed better, if_neg outside]

end Leaves

end CommunityDetection.LocalMove
