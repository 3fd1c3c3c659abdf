import CommunityDetection.Proofs.LocalMove.Passes

/-!
# Visits one after another

Where no visit begins before the one before it has ended, a pass is a walk over the nodes in some order.
`Walked` gives the states after any number of such passes. A phase whose turns are sequential only makes
such passes, and if it does not fail, it ends with one that moved nothing or left every node alone
(`run_ends`).
-/

namespace CommunityDetection.LocalMove

variable {α : Type} [Scalar α] {setting : Setting α} {start state : State α} {active awake : Array Bool}
  {passes nodes : List Nat} {limit node other community : Nat}

/-! ## Visits -/

theorem visit_eq_self {pass : Pass α}
    (rests : active.getD node false = true → target? setting pass.state node = none) :
    pass.visit setting active node = pass := by
  unfold Pass.visit
  split
  · rename_i isActive
    rw [rests isActive]
  · rfl

theorem visits_eq_self {pass : Pass α}
    (rests : ∀ node ∈ nodes, active.getD node false = true → target? setting pass.state node = none) :
    nodes.foldl (Pass.visit setting active) pass = pass := by
  induction nodes with
  | nil => rfl
  | cons node nodes ih =>
    rw [List.foldl_cons, visit_eq_self (rests node List.mem_cons_self)]
    exact ih fun other member => rests other (List.mem_cons_of_mem _ member)

theorem visit_eq_move {pass : Pass α} (isActive : active.getD node false = true)
    (moves : target? setting pass.state node = some community) :
    pass.visit setting active node =
      { state := pass.state.move node (setting.nodeVolumes.read node) community
        moves := pass.moves + 1
        awake := wake setting.graph
          (pass.state.move node (setting.nodeVolumes.read node) community).assignment node community
          pass.awake } := by
  rw [Pass.visit, if_pos isActive, moves]

def stir (assignment : Assignment) (node community : Nat) (awake : Array Bool) (entry : Nat × α) :
    Array Bool :=
  if entry.1 ≠ node ∧ assignment.of entry.1 ≠ community then awake.setIfInBounds entry.1 true else awake

omit [Scalar α] in
theorem awake_stir (assignment : Assignment) (entry : Nat × α) (bound : other < awake.size) :
    (stir assignment node community awake entry).size = awake.size ∧
      ((stir assignment node community awake entry).getD other false = true ↔
        awake.getD other false = true ∨
          entry.1 = other ∧ other ≠ node ∧ assignment.of other ≠ community) := by
  unfold stir
  by_cases named : entry.1 = other
  · subst named
    by_cases roused : entry.1 ≠ node ∧ assignment.of entry.1 ≠ community
    · rw [if_pos roused, getD_setIfInBounds, if_pos ⟨rfl, bound⟩]
      simp [roused]
    · rw [if_neg roused]
      simp [roused]
  · have apart : ¬(entry.1 = other ∧ other ≠ node ∧ assignment.of other ≠ community) :=
      fun both => named both.1
    by_cases roused : entry.1 ≠ node ∧ assignment.of entry.1 ≠ community
    · rw [if_pos roused, getD_setIfInBounds, if_neg fun both => named both.1]
      exact ⟨Array.size_setIfInBounds, (or_iff_left apart).symm⟩
    · rw [if_neg roused]
      exact ⟨rfl, (or_iff_left apart).symm⟩

omit [Scalar α] in
theorem awake_wake {G : Graph α} {assignment : Assignment} (bound : other < awake.size) :
    (wake G assignment node community awake).getD other false = true ↔
      awake.getD other false = true ∨
        G.Adjacent node other ∧ other ≠ node ∧ assignment.of other ≠ community := by
  have all (row : Row α) (awake : Array Bool) (bound : other < awake.size) :
      (row.foldl (stir assignment node community) awake).getD other false = true ↔
        awake.getD other false = true ∨
          (∃ entry ∈ row, entry.1 = other) ∧ other ≠ node ∧ assignment.of other ≠ community := by
    induction row generalizing awake with
    | nil => simp
    | cons entry row ih =>
      obtain ⟨size, roused⟩ := awake_stir assignment entry bound
      rw [List.foldl_cons, ih _ (bound.trans_eq size.symm), roused, List.exists_mem_cons_iff, or_assoc,
        ← or_and_right]
  exact all (G.row node) awake bound

theorem visit_trail (size : active.size = setting.graph.nodeCount) (pass : Pass α) (node : Nat) :
    ∃ count, Trail setting pass.state count (pass.visit setting active node).state := by
  by_cases isActive : active.getD node false = true
  · cases moves : target? setting pass.state node with
    | none => exact ⟨0, by rw [visit_eq_self fun _ => moves]; exact .refl⟩
    | some community =>
      rw [visit_eq_move isActive moves]
      exact ⟨1, .move .refl (lt_of_active size isActive) moves⟩
  · exact ⟨0, by rw [visit_eq_self fun active => absurd active isActive]; exact .refl⟩

/-- A pass after visits to some nodes, one after another. -/
def walk (setting : Setting α) (active : Array Bool) (nodes : List Nat) (state : State α) : Pass α :=
  nodes.foldl (Pass.visit setting active) (unvisited setting state)

theorem walk_concat (nodes : List Nat) (node : Nat) (state : State α) :
    walk setting active (nodes ++ [node]) state = (walk setting active nodes state).visit setting active node :=
  List.foldl_concat ..

theorem underway_walk (size : active.size = setting.graph.nodeCount) (nodes : List Nat) (state : State α) :
    Underway setting state (walk setting active nodes state) :=
  underway_visits size state nodes

theorem walk_trail (size : active.size = setting.graph.nodeCount) (nodes later : List Nat) (state : State α) :
    ∃ count, Trail setting (walk setting active nodes state).state count
      (walk setting active (nodes ++ later) state).state := by
  induction later using List.reverseRecOn with
  | nil => exact ⟨0, by rw [List.append_nil]; exact .refl⟩
  | append_singleton later node ih =>
    obtain ⟨before, trail⟩ := ih
    obtain ⟨count, last⟩ := visit_trail size (walk setting active (nodes ++ later) state) node
    rw [← List.append_assoc, walk_concat]
    exact ⟨_, trail.trans last⟩

theorem walk_of_rest (size : active.size = setting.graph.nodeCount)
    (rests : ∀ node < setting.graph.nodeCount, active.getD node false = true → target? setting state node = none)
    (nodes : List Nat) : walk setting active nodes state = unvisited setting state :=
  visits_eq_self fun node _ isActive => rests node (lt_of_active size isActive) isActive

/-! ## Passes -/

/-- The states after some passes of visits one after another, with the nodes that the next one visits. -/
inductive Walked (setting : Setting α) (start : State α) : Array Bool → State α → Prop
  | start : Walked setting start (Array.replicate setting.graph.nodeCount true) start
  | pass {active : Array Bool} {state : State α} {order : List Nat}
      (all : order.Perm (List.range setting.graph.nodeCount)) (before : Walked setting start active state) :
      Walked setting start (walk setting active order state).awake (walk setting active order state).state

theorem Walked.trail (walked : Walked setting start active state) :
    active.size = setting.graph.nodeCount ∧ ∃ count, Trail setting start count state := by
  induction walked with
  | start => exact ⟨Array.size_replicate, 0, .refl⟩
  | @pass _ before order _ _ ih =>
    obtain ⟨size, count, trail⟩ := ih
    have underway := underway_walk size order before
    exact ⟨underway.size, _, trail.trans underway.trail⟩

theorem Walked.exists_trail (walked : Walked setting start active state) (nodes : List Nat) :
    ∃ count, Trail setting start count (walk setting active nodes state).state := by
  obtain ⟨size, count, trail⟩ := walked.trail
  exact ⟨_, trail.trans (underway_walk size nodes state).trail⟩

theorem Walked.sweep (walked : Walked setting start active state) (sequential : setting.Sequential)
    (pass : Nat) : Walked setting start (sweep setting (setting.turns pass) active state).awake
      (sweep setting (setting.turns pass) active state).state := by
  obtain ⟨order, all, same⟩ := sequential.sweep pass
  rw [same]
  exact walked.pass all

theorem settle_ends (sequential : setting.Sequential) (walked : Walked setting start active state)
    (settled : (settle setting limit active state passes).failure? = none) :
    ∃ pass last before, Walked setting start last before ∧
      (settle setting limit active state passes).state = (sweep setting (setting.turns pass) last before).state ∧
      ((sweep setting (setting.turns pass) last before).moves = 0 ∨
        (sweep setting (setting.turns pass) last before).state.occupied = setting.graph.nodeCount) := by
  induction limit generalizing active state passes with
  | zero => cases settled
  | succ limit ih =>
    rcases settle_cases setting limit active state passes with ⟨fault, -, ends⟩ | ⟨done, ends⟩ | ⟨-, goesOn⟩
    · rw [ends] at settled
      cases settled
    · exact ⟨passes.length, active, state, walked, congrArg Report.state ends, done⟩
    · rw [goesOn] at settled ⊢
      exact ih (walked.sweep sequential passes.length) settled

theorem run_ends (sequential : setting.Sequential) (settled : (run setting start).failure? = none) :
    ∃ pass last before, Walked setting start last before ∧
      (run setting start).state = (sweep setting (setting.turns pass) last before).state ∧
      ((sweep setting (setting.turns pass) last before).moves = 0 ∨
        (sweep setting (setting.turns pass) last before).state.occupied = setting.graph.nodeCount) :=
  settle_ends sequential .start settled

end CommunityDetection.LocalMove
