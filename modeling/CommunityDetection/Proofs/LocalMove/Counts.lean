import CommunityDetection.Proofs.LocalMove.Ledger
import CommunityDetection.Proofs.LocalMove.Walks

/-!
# Counts while nodes move

Whatever the weights are, between any two visits that are made one after another the sizes are those of the
communities and the tracked number of communities is that of the communities in use. A node only enters a
community that still has a member, so communities only go out of use. A move leaves two nodes in one
community, so as many communities as nodes mean that nothing moved (`counts_kept`). After a pass whose
visits overlap the counts are right as well, but two nodes may have changed places in it.
-/

namespace CommunityDetection.LocalMove
open Finset

variable {α : Type} {n node community : Nat} {state : State α}

def State.entered (state : State α) (node community : Nat) : Nat :=
  (state.sizes.setIfInBounds (state.assignment.of node)
    (state.sizeOf (state.assignment.of node) - 1)).getD community 0

theorem State.occupied_move [Scalar α] (state : State α) (node community : Nat) (volume : α) :
    (state.move node volume community).occupied = state.occupied -
      (if state.sizeOf (state.assignment.of node) = 1 then 1 else 0) +
      (if state.entered node community = 0 then 1 else 0) := rfl

/-- The counts of a state are right, and since an earlier state communities only went out of use. -/
structure Kept (n : Nat) (earlier state : State α) : Prop where
  sizes : ∀ community < n, state.sizeOf community = (state.assignment.members n community).card
  occupied : state.occupied = (state.assignment.used n).card
  drawn : state.assignment.used n ⊆ earlier.assignment.used n
  fewer : state.occupied ≤ earlier.occupied

theorem counted_of_start {tracked : Nat} {assignment : Assignment} {volumes : Cells α}
    (starts : LocalMove.start n assignment volumes tracked = .ok state) (size : assignment.size = n) :
    Counted n state := by
  have within := within_of_start starts size
  have counts : tracked = (assignment.used n).card := by
    rw [← countP_countSizes within]
    unfold LocalMove.start at starts
    split at starts
    · cases starts
    · split at starts
      · cases starts
      · dsimp only at starts
        split at starts
        · rename_i found
          exact found.symm
        · cases starts
  obtain ⟨started, same, counted⟩ := exists_start within volumes counts
  rw [starts] at same
  cases same
  exact counted

variable [Scalar α] {setting : Setting α} {start earlier : State α} {active : Array Bool} {count : Nat}

/-! ## What moves keep -/

omit [Scalar α] in
theorem Counted.kept (counted : Counted n state) (before : Counted n earlier)
    (drawn : ∀ v < n, ∃ u < n, state.assignment.of v = earlier.assignment.of u) : Kept n earlier state := by
  have among : state.assignment.used n ⊆ earlier.assignment.used n := by
    intro community member
    obtain ⟨v, bound, rfl⟩ := Assignment.mem_used.mp member
    obtain ⟨u, bounded, same⟩ := drawn v bound
    exact Assignment.mem_used.mpr ⟨u, bounded, same.symm⟩
  refine ⟨counted.sizes, counted.occupied, among, ?_⟩
  rw [counted.occupied, before.occupied]
  exact card_le_card among

theorem Trail.kept (trail : Trail setting earlier count state) (closed : setting.graph.Closed)
    (counted : Counted setting.graph.nodeCount earlier) : Kept setting.graph.nodeCount earlier state :=
  (trail.counted closed counted).kept counted (trail.drawn closed counted.within.size)

theorem Passed.kept (passed : Passed setting start active state) (closed : setting.graph.Closed)
    (counted : Counted setting.graph.nodeCount start) : Kept setting.graph.nodeCount start state :=
  (passed.counted closed counted).kept counted (passed.drawn closed counted.within.size)

theorem Counted.entered_ne_zero (counted : Counted setting.graph.nodeCount state)
    (closed : setting.graph.Closed) (moves : target? setting state node = some community) :
    state.entered node community ≠ 0 := by
  obtain ⟨weight, fits, -⟩ := target?_eq_some moves
  obtain ⟨v, -, adjacent, same⟩ := fits.neighbor
  have bound := adjacent.lt_right closed
  have inside := counted.within.bounded v bound
  have used := Assignment.mem_used.mpr ⟨v, bound, same⟩
  rw [same] at inside
  rw [State.entered, entered_eq fits.leaves, counted.sizes community inside]
  exact (Assignment.mem_used_iff_card.mp used).ne'

theorem Trail.occupied_lt (trail : Trail setting earlier count state) (closed : setting.graph.Closed)
    (counted : Counted setting.graph.nodeCount earlier) (moved : count ≠ 0) :
    state.occupied < setting.graph.nodeCount := by
  have after := trail.counted closed counted
  cases trail with
  | refl => exact absurd rfl moved
  | @move _ before node community trail bound moves =>
    -- The node that moved last shares its community with a neighbour.
    obtain ⟨weight, fits, -⟩ := target?_eq_some moves
    obtain ⟨v, other, adjacent, same⟩ := fits.neighbor
    have listed : node < before.assignment.size := by rwa [trail.size, counted.within.size]
    have shared : (before.assignment.assign node community).of node =
        (before.assignment.assign node community).of v := by
      rw [Assignment.of_assign_self listed, Assignment.of_assign_of_ne _ other.symm]
      exact same.symm
    exact after.occupied_lt bound (adjacent.lt_right closed) other.symm shared

/-! ## Counts at every visit -/

/-- For any weights and from any start that is accepted: between two visits of a pass that are made one after
another, after any number of such passes, the counts are right, the communities in use are among those of the
start, and there are no more of them than after fewer visits; a node that moves never enters a community
without members, so its move does not raise the count. However the passes end and whatever the turns of the
workers in them, the reported count is the number of communities in use. Where no visits overlap and the
passes end without a fault, as many communities as nodes mean that nothing moved. -/
theorem counts_kept (closed : setting.graph.Closed) {assignment : Assignment} {volumes : Cells α}
    {tracked : Nat}
    (starts : LocalMove.start setting.graph.nodeCount assignment volumes tracked = .ok start)
    (size : assignment.size = setting.graph.nodeCount) :
    let n := setting.graph.nodeCount
    let report := run setting start
    (∀ active state, Walked setting start active state → ∀ earlier later : List Nat,
      let between := (walk setting active (earlier ++ later) state).state
      Kept n start between ∧ Kept n (walk setting active earlier state).state between ∧
      ∀ node community, target? setting between node = some community →
        between.entered node community ≠ 0 ∧
        (between.move node (setting.nodeVolumes.read node) community).occupied = between.occupied -
          if between.sizeOf (between.assignment.of node) = 1 then 1 else 0) ∧
    Kept n start report.state ∧
    (setting.Sequential → report.failure? = none →
      (report.moves = 0 ∨ report.state.occupied = n ↔ report.moves = 0)) := by
  have counted : Counted setting.graph.nodeCount start := counted_of_start starts size
  refine ⟨fun active state walked earlier later => ?_, ?_, fun sequential settled => ?_⟩
  · obtain ⟨count, trail⟩ := walked.exists_trail (earlier ++ later)
    refine ⟨trail.kept closed counted, ?_, fun node community moves => ?_⟩
    · obtain ⟨before, earliest⟩ := walked.exists_trail earlier
      obtain ⟨_, after⟩ := walk_trail walked.trail.1 earlier later state
      exact after.kept closed (earliest.counted closed counted)
    · have entered := (trail.counted closed counted).entered_ne_zero closed moves
      refine ⟨entered, ?_⟩
      rw [State.occupied_move, if_neg entered, Nat.add_zero]
  · obtain ⟨active, passed⟩ := run_passed setting start
    exact passed.kept closed counted
  · refine or_iff_left_of_imp fun all => ?_
    by_contra moved
    exact ((run_trail sequential settled).occupied_lt closed counted moved).ne all

def oneWay : Setting ℚ where
  graph :=
    { orientation := .natural
      weighted := true
      rows := #[[], [(0, 1)], [(0, -1), (1, 2)]]
      translation := none
      properties := [] }
  nodeVolumes := #[1, 1, 1]
  gamma := 1 / 8
  concurrency := 1

theorem counts_kept_oneWay :
    ∃ start, LocalMove.start 3 (.singletons 3) oneWay.nodeVolumes 3 = .ok start ∧
      (run oneWay start).failure? = none ∧ (run oneWay start).moves = 2 ∧
      (run oneWay start).state.occupied = ((run oneWay start).state.assignment.used 3).card ∧
      (run oneWay start).state.occupied ≠ 3 := by
  have starts : LocalMove.start oneWay.graph.nodeCount (.singletons 3) oneWay.nodeVolumes 3 =
      .ok ⟨.singletons 3, oneWay.nodeVolumes, #[1, 1, 1], 3⟩ := rfl
  obtain ⟨-, kept, ends⟩ :=
    counts_kept (Graph.closed_of_forall_lt (by decide)) starts (Assignment.size_singletons 3)
  refine ⟨_, starts, by decide +kernel, by decide +kernel, kept.occupied, fun all => ?_⟩
  have moved : (run oneWay ⟨.singletons 3, oneWay.nodeVolumes, #[1, 1, 1], 3⟩).moves ≠ 0 := by
    decide +kernel
  exact moved ((ends (.inr fun _ _ => nofun) (by decide +kernel)).mp (.inr all))

end CommunityDetection.LocalMove
