import CommunityDetection.Proofs.LocalMove.Quiet
import CommunityDetection.Proofs.LocalMove.Trail
import CommunityDetection.Proofs.Volume

/-!
# Passes

`Passed` gives the states after any number of passes with any turns. A run that moves nothing ends with its
first pass (`run_still`). A phase that fails ran out of passes or found a contradiction in the volumes after
one of them (`run_fails`).
-/

namespace CommunityDetection.LocalMove

variable {α : Type} [Scalar α] {setting : Setting α} {start state : State α} {active : Array Bool}
  {passes : List Nat} {limit : Nat} {failure : Error α}

/-- The states after some passes, with the nodes that the next one visits. -/
inductive Passed (setting : Setting α) (start : State α) : Array Bool → State α → Prop
  | start : Passed setting start (Array.replicate setting.graph.nodeCount true) start
  | pass {active : Array Bool} {state : State α} (turns : List Turn)
      (before : Passed setting start active state) :
      Passed setting start (sweep setting turns active state).awake (sweep setting turns active state).state

theorem Passed.size (passed : Passed setting start active state) :
    active.size = setting.graph.nodeCount := by
  cases passed with
  | start => exact Array.size_replicate
  | pass turns before => exact size_awake_sweep turns _ _

/-! ## How the passes end -/

theorem settle_cases (setting : Setting α) (limit : Nat) (active : Array Bool) (state : State α)
    (passes : List Nat) :
    let pass := sweep setting (setting.turns passes.length) active state
    (∃ fault, Volumes.drift? ⟨setting.nodeVolumes, pass.state.communityVolumes⟩ pass.state.assignment =
        some fault ∧ settle setting (limit + 1) active state passes =
      ⟨pass.state, passes.reverse, some (.inconsistent fault)⟩) ∨
    ((pass.moves = 0 ∨ pass.state.occupied = setting.graph.nodeCount) ∧
      settle setting (limit + 1) active state passes = ⟨pass.state, (pass.moves :: passes).reverse, none⟩) ∨
    (pass.moves ≠ 0 ∧ settle setting (limit + 1) active state passes =
      settle setting limit pass.awake pass.state (pass.moves :: passes)) := by
  intro pass
  cases drifted : Volumes.drift? ⟨setting.nodeVolumes, pass.state.communityVolumes⟩ pass.state.assignment with
  | some fault => exact .inl ⟨fault, rfl, by simp only [settle, pass, drifted]⟩
  | none =>
    by_cases done : pass.moves = 0 ∨ pass.state.occupied = setting.graph.nodeCount
    · exact .inr (.inl ⟨done, by simp only [settle, pass, drifted, if_pos done]⟩)
    · exact .inr (.inr ⟨fun none => done (.inl none), by simp only [settle, pass, drifted, if_neg done]⟩)

theorem sum_le_moves (setting : Setting α) (limit : Nat) (active : Array Bool) (state : State α)
    (passes : List Nat) : passes.sum ≤ (settle setting limit active state passes).moves := by
  induction limit generalizing active state passes with
  | zero => rw [settle, Report.moves_eq, List.sum_reverse]
  | succ limit ih =>
    rcases settle_cases setting limit active state passes with ⟨fault, -, ends⟩ | ⟨-, ends⟩ | ⟨-, goesOn⟩
    · rw [ends, Report.moves_eq, List.sum_reverse]
    · rw [ends, Report.moves_eq, List.sum_reverse, List.sum_cons]
      exact Nat.le_add_left _ _
    · rw [goesOn]
      exact (Nat.le_add_left _ _).trans (List.sum_cons.symm.le.trans (ih ..))

theorem moves_sweep_le (settled : (settle setting limit active state passes).failure? = none) :
    passes.sum + (sweep setting (setting.turns passes.length) active state).moves ≤
      (settle setting limit active state passes).moves := by
  cases limit with
  | zero => cases settled
  | succ limit =>
    rcases settle_cases setting limit active state passes with ⟨fault, -, ends⟩ | ⟨-, ends⟩ | ⟨-, goesOn⟩
    · rw [ends] at settled
      cases settled
    · rw [ends, Report.moves_eq, List.sum_reverse, List.sum_cons, Nat.add_comm]
    · rw [goesOn, Nat.add_comm, ← List.sum_cons]
      exact sum_le_moves setting limit _ _ _

theorem run_of_still
    (still : (sweep setting (setting.turns 0) (Array.replicate setting.graph.nodeCount true) start).moves = 0)
    (steady : Volumes.drift? ⟨setting.nodeVolumes, start.communityVolumes⟩ start.assignment = none) :
    run setting start = ⟨start, [0], none⟩ := by
  have same := congrArg Pass.state (sweep_quiet still).1
  have ends (limit : Nat) :
      settle setting (limit + 1) (Array.replicate setting.graph.nodeCount true) start [] = ⟨start, [0], none⟩ := by
    rw [settle]
    simp only [List.length_nil, same, unvisited, steady, still, true_or, if_true, List.reverse_singleton]
  exact ends _

theorem settle_still (settled : (settle setting limit active start []).failure? = none)
    (still : (settle setting limit active start []).moves = 0) :
    (settle setting limit active start []).state = start ∧
      ∀ node < setting.graph.nodeCount, active.getD node false = true → target? setting start node = none := by
  have first : (sweep setting (setting.turns 0) active start).moves = 0 :=
    Nat.eq_zero_of_add_eq_zero_left (Nat.le_zero.mp ((moves_sweep_le settled).trans_eq still))
  obtain ⟨same, rests⟩ := sweep_quiet first
  refine ⟨?_, rests⟩
  cases limit with
  | zero => cases settled
  | succ limit =>
    rcases settle_cases setting limit active start [] with ⟨fault, -, ends⟩ | ⟨-, ends⟩ | ⟨moved, -⟩
    · rw [ends] at settled
      cases settled
    · exact (congrArg Report.state ends).trans (congrArg Pass.state same)
    · exact absurd first moved

theorem settled_of_still (still : (settle setting (limit + 1) active start []).moves = 0)
    (steady : let pass := sweep setting (setting.turns 0) active start
      Volumes.drift? ⟨setting.nodeVolumes, pass.state.communityVolumes⟩ pass.state.assignment = none) :
    (settle setting (limit + 1) active start []).failure? = none := by
  rcases settle_cases setting limit active start [] with ⟨fault, drifted, -⟩ | ⟨-, ends⟩ | ⟨moved, goesOn⟩
  · cases steady.symm.trans drifted
  · rw [ends]
  · rw [goesOn] at still
    have more := (sum_le_moves setting limit _ _ _).trans_eq still
    rw [List.sum_singleton] at more
    exact absurd (Nat.le_zero.mp more) moved

/-- A run that moves nothing makes one pass, in which every node is at rest. -/
theorem run_still (settled : (run setting start).failure? = none) (still : (run setting start).moves = 0) :
    (run setting start).state = start ∧
      ∀ node < setting.graph.nodeCount, target? setting start node = none := by
  obtain ⟨same, rests⟩ := settle_still settled still
  exact ⟨same, fun node bound => rests node bound (by simp [bound])⟩

theorem settle_passed (passed : Passed setting start active state) :
    ∃ later, Passed setting start later (settle setting limit active state passes).state := by
  induction limit generalizing active state passes with
  | zero => exact ⟨active, passed⟩
  | succ limit ih =>
    rcases settle_cases setting limit active state passes with ⟨fault, -, ends⟩ | ⟨-, ends⟩ | ⟨-, goesOn⟩
    · rw [ends]
      exact ⟨_, passed.pass _⟩
    · rw [ends]
      exact ⟨_, passed.pass _⟩
    · rw [goesOn]
      exact ih (passed.pass _)

theorem run_passed (setting : Setting α) (start : State α) :
    ∃ active, Passed setting start active (run setting start).state :=
  settle_passed .start

def Drifts (setting : Setting α) (start : State α) (fault : Inconsistency α) : Prop :=
  ∃ active state, Passed setting start active state ∧
    Volumes.drift? ⟨setting.nodeVolumes, state.communityVolumes⟩ state.assignment = some fault

theorem settle_fails (passed : Passed setting start active state)
    (failed : (settle setting limit active state passes).failure? = some failure) :
    failure = .unsettled ∨ ∃ fault, failure = .inconsistent fault ∧ Drifts setting start fault := by
  induction limit generalizing active state passes with
  | zero =>
    cases failed
    exact .inl rfl
  | succ limit ih =>
    rcases settle_cases setting limit active state passes with
      ⟨fault, drifted, ends⟩ | ⟨-, ends⟩ | ⟨-, goesOn⟩
    · rw [ends] at failed
      cases failed
      exact .inr ⟨fault, rfl, _, _, passed.pass _, drifted⟩
    · rw [ends] at failed
      cases failed
    · rw [goesOn] at failed
      exact ih (passed.pass _) failed

theorem run_fails (failed : (run setting start).failure? = some failure) :
    failure = .unsettled ∨ ∃ fault, failure = .inconsistent fault ∧ Drifts setting start fault :=
  settle_fails .start failed

end CommunityDetection.LocalMove
