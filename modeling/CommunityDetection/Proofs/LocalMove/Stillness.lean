import CommunityDetection.Proofs.LocalMove.Counts
import CommunityDetection.Proofs.LocalMove.Ending

/-!
# Runs that move nothing

Where a run moves nothing, its first pass found every node at rest in the start. A node at rest gains
nothing in a community open to it (`objective_le_of_rest`). A community that it is barred from consists of
one neighbour, for which the community of the node is open, and either move leads to the same partition
(`quality_swap`). So no move of a single node to a neighbour raises the objective (`still_optimal`).
-/

namespace CommunityDetection.LocalMove
open Finset

/-! ## Runs without moves -/

section Still

variable {α : Type} [Scalar α] {setting : Setting α} {start state : State α} {node neighbor : Nat}

omit [Scalar α] in
theorem Counted.alone {n : Nat} (counted : Counted n state) (bound : node < n)
    (single : state.sizeOf (state.assignment.of node) = 1) :
    ∀ w < n, state.assignment.of w = state.assignment.of node → w = node := by
  rw [counted.sizes _ (counted.within.bounded node bound)] at single
  intro w bounded same
  exact card_le_one.mp single.le w (Assignment.mem_members.mpr ⟨bounded, same⟩) node
    (Assignment.mem_members.mpr ⟨bound, rfl⟩)

omit [Scalar α] in
theorem barred_comm (bars : barred state (state.assignment.of node) (state.assignment.of neighbor) = true) :
    state.sizeOf (state.assignment.of node) = 1 ∧ state.sizeOf (state.assignment.of neighbor) = 1 ∧
      barred state (state.assignment.of neighbor) (state.assignment.of node) = false := by
  simp only [barred, Bool.and_eq_true, beq_iff_eq, decide_eq_true_eq] at bars
  obtain ⟨⟨alone, less⟩, single⟩ := bars
  exact ⟨alone, single, by simp [barred, less.le]⟩

end Still

variable {K : Type} [Field K] [LinearOrder K]

/-! ## Two nodes that are alone -/

omit [LinearOrder K] in
theorem quality_swap {n : Nat} {weight : Nat → Nat → K} {volume : Nat → K} {gamma : K}
    {community : Nat → Nat} {u v : Nat} (aloneU : ∀ w < n, community w = community u → w = u)
    (aloneV : ∀ w < n, community w = community v → w = v) :
    quality n weight volume gamma (Function.update community u (community v)) =
      quality n weight volume gamma (Function.update community v (community u)) := by
  -- The names of the two communities are exchanged.
  have renamed : ∀ w < n, Function.update community v (community u) w =
      Equiv.swap (community u) (community v) (Function.update community u (community v) w) := by
    intro w bound
    by_cases atU : w = u
    · subst atU
      rw [Function.update_self, Equiv.swap_apply_right]
      by_cases atV : w = v
      · rw [atV, Function.update_self]
      · rw [Function.update_of_ne atV]
    · rw [Function.update_of_ne atU]
      by_cases atV : w = v
      · rw [atV, Function.update_self, Equiv.swap_apply_right]
      · rw [Function.update_of_ne atV, Equiv.swap_apply_of_ne_of_ne]
        · exact fun same => atU (aloneU w bound same)
        · exact fun same => atV (aloneV w bound same)
  refine quality_congr fun a boundA b boundB => ?_
  rw [renamed a boundA, renamed b boundB, EmbeddingLike.apply_eq_iff_eq]

/-! ## Nodes at rest -/

variable {setting : Setting K} {start state : State K} {node neighbor : Nat}

def objectiveAfter (setting : Setting K) (state : State K) (node community : Nat) : K :=
  quality setting.graph.nodeCount setting.graph.weight setting.nodeVolumes.read setting.gamma
    (Function.update state.assignment.of node community)

theorem objective_move_eq (within : state.assignment.Within setting.graph.nodeCount)
    (bound : node < setting.graph.nodeCount) (community : Nat) :
    objective setting (state.move node (setting.nodeVolumes.read node) community) =
      objectiveAfter setting state node community := by
  rw [objective, State.move, Assignment.of_assign (bound.trans_eq within.size.symm), objectiveAfter]

variable [IsStrictOrderedRing K]

theorem objective_le_of_rest (closed : setting.graph.Closed) (symmetric : setting.graph.Symmetric)
    (sound : Sound setting state) (bound : node < setting.graph.nodeCount)
    (rests : target? setting state node = none) {candidate : Nat × K}
    (fits : Candidate setting state node candidate) :
    objective setting (state.move node (setting.nodeVolumes.read node) candidate.1) ≤
      objective setting state := by
  have stays : (best setting state node).2 = stay setting state node := by
    rcases best_cases setting state node with home | ⟨other, fitsOther, reached, -⟩
    · rw [home]
    · simp [target?, reached, fitsOther.leaves] at rests
  have most := le_best fits
  rw [objective_move closed symmetric sound bound fits]
  linarith

theorem run_settles_of_still (closed : setting.graph.Closed) (sound : Sound setting start)
    (still : (run setting start).moves = 0) : (run setting start).failure? = none := by
  have all : (Array.replicate setting.graph.nodeCount true).size = setting.graph.nodeCount := Array.size_replicate
  have swept := sound.sweep closed all (setting.turns 0)
  exact settled_of_still still (swept.volumes.drift?_eq_none swept.within.bounded)

theorem still_optimal (closed : setting.graph.Closed)
    (comm : ∀ u v, setting.graph.Adjacent u v → setting.graph.Adjacent v u)
    (symmetric : setting.graph.Symmetric) {assignment : Assignment} {volumes : Cells K} {tracked : Nat}
    (starts : LocalMove.start setting.graph.nodeCount assignment volumes tracked = .ok start)
    (size : assignment.size = setting.graph.nodeCount)
    (sums : Volumes.Sound ⟨setting.nodeVolumes, volumes⟩ assignment setting.graph.nodeCount)
    (still : (run setting start).moves = 0) :
    (run setting start).failure? = none ∧ (run setting start).state = start ∧
      ∀ node neighbor, setting.graph.Adjacent node neighbor →
        start.assignment.of neighbor ≠ start.assignment.of node →
        objective setting
            (start.move node (setting.nodeVolumes.read node) (start.assignment.of neighbor)) ≤
          objective setting start := by
  have counted := counted_of_start starts size
  have within := within_of_start starts size
  obtain ⟨rfl, rfl⟩ := start_ok starts
  have sound : Sound setting start := ⟨within, sums⟩
  have settled := run_settles_of_still closed sound still
  obtain ⟨same, rests⟩ := run_still settled still
  refine ⟨settled, same, fun node neighbor adjacent leaves => ?_⟩
  have bound := adjacent.lt_left
  have bounded := adjacent.lt_right closed
  have other : neighbor ≠ node := fun equal => leaves (congrArg start.assignment.of equal)
  by_cases bars : barred start (start.assignment.of node) (start.assignment.of neighbor) = true
  · -- The node and its neighbour are both alone, and the neighbour is not barred.
    obtain ⟨alone, single, allowed⟩ := barred_comm bars
    obtain ⟨weight, fits⟩ := exists_candidate (comm _ _ adjacent) other.symm leaves.symm allowed
    have least := objective_le_of_rest closed symmetric sound bounded (rests neighbor bounded) fits
    rw [objective_move_eq within bounded] at least
    rw [objective_move_eq within bound]
    exact (quality_swap (counted.alone bound alone) (counted.alone bounded single)).trans_le least
  · obtain ⟨weight, fits⟩ := exists_candidate adjacent other leaves (Bool.eq_false_of_not_eq_true bars)
    have most := objective_le_of_rest closed symmetric sound bound (rests node bound) fits
    exact most

end CommunityDetection.LocalMove
