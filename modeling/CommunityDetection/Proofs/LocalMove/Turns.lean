import CommunityDetection.LocalMove
import CommunityDetection.Proofs.LocalMove.Programs
import CommunityDetection.Proofs.Schedule
import CommunityDetection.Proofs.Span

/-!
# Turns of the workers

What every access keeps, every pass keeps (`race_preserves`). A single worker makes its visits in order,
however its turns are cut (`race_alone`), and where all turns are whole visits, a pass is a sequence of
visits (`sweep_whole`).
-/

namespace CommunityDetection.LocalMove

variable {α : Type} [Scalar α] {setting : Setting α} {active : Array Bool} {pass : Pass α}
  {worker : Worker α} {turn : Turn}

omit [Scalar α] in
theorem lt_of_active {G : Graph α} {node : Nat} (size : active.size = G.nodeCount)
    (isActive : active.getD node false = true) : node < G.nodeCount := by
  by_contra outside
  have none : active[node]? = none := by simpa [size] using outside
  simp [none] at isActive

/-! ## What every access keeps -/

section Preserves

variable {p : Pass α → Prop}
  (kept : ∀ {ρ : Type} (access : Access α ρ) (pass : Pass α), p pass → p (access.run pass).2)

include kept

theorem run_preserves {β : Type} (program : Program α β) (holds : p pass) : p (program.run pass).2 := by
  induction program generalizing pass with
  | done => exact holds
  | next access answered ih => exact ih _ (kept access pass holds)

theorem visit_preserves (node : Nat) (holds : p pass) : p (pass.visit setting active node) := by
  by_cases isActive : active.getD node false = true
  · have ran := run_preserves kept (visiting setting node) holds
    rwa [run_visiting isActive] at ran
  · rwa [Pass.visit, if_neg isActive]

theorem visits_preserve (nodes : List Nat) (holds : p pass) :
    p (nodes.foldl (Pass.visit setting active) pass) := by
  induction nodes generalizing pass with
  | nil => exact holds
  | cons node nodes ih => exact ih (visit_preserves kept node holds)

theorem take_preserves (turn : Turn) (worker : Worker α) (holds : p pass) :
    p (worker.take setting active turn pass).2 := by
  cases turn with
  | visit =>
    unfold Worker.take Worker.visit
    dsimp only
    split
    · exact run_preserves kept _ holds
    · exact visit_preserves kept _ holds
    · exact holds
  | access =>
    unfold Worker.take Worker.access
    dsimp only
    split
    · exact kept _ _ holds
    · exact holds
    · exact holds

theorem finish_preserves (worker : Worker α) (holds : p pass) : p (worker.finish setting active pass) := by
  unfold Worker.finish
  refine visits_preserve kept _ ?_
  split
  · exact run_preserves kept _ holds
  · exact holds

theorem race_preserves (turns : List Turn) (workers : List (Worker α)) (holds : p pass) :
    p (race setting active turns workers pass) := by
  induction turns generalizing workers pass with
  | nil =>
    unfold race
    induction workers generalizing pass with
    | nil => exact holds
    | cons worker workers ih => exact ih (finish_preserves kept worker holds)
  | cons turn turns ih =>
    unfold race
    split
    · exact ih workers holds
    · exact ih _ (take_preserves kept turn _ holds)

end Preserves

theorem size_awake_sweep (turns : List Turn) (active : Array Bool) (state : State α) :
    (sweep setting turns active state).awake.size = setting.graph.nodeCount := by
  refine race_preserves (p := fun pass => pass.awake.size = setting.graph.nodeCount)
    (fun access pass size => ?_) _ _ Array.size_replicate
  cases access with
  | wake => exact Array.size_setIfInBounds.trans size
  | _ => exact size

/-! ## A single worker -/

theorem finish_take (turn : Turn) (worker : Worker α) (pass : Pass α) :
    (worker.take setting active turn pass).1.finish setting active (worker.take setting active turn pass).2 =
      worker.finish setting active pass := by
  obtain ⟨current, rest⟩ := worker
  have begins (node : Nat) (rest : List Nat) (pass : Pass α) :
      Worker.finish setting active
          ⟨if active.getD node false then some (node, visiting setting node) else none, rest⟩ pass =
        rest.foldl (Pass.visit setting active) (pass.visit setting active node) := by
    by_cases isActive : active.getD node false = true
    · rw [if_pos isActive]
      simp only [Worker.finish, run_visiting isActive]
    · rw [if_neg isActive, Pass.visit, if_neg isActive]
      rfl
  cases turn with
  | visit =>
    cases current with
    | some => rfl
    | none => cases rest <;> rfl
  | access =>
    cases current with
    | none =>
      cases rest with
      | nil => rfl
      | cons node rest => exact begins node rest pass
    | some begun =>
      obtain ⟨-, program⟩ := begun
      cases program with
      | next => rfl
      | done =>
        cases rest with
        | nil => rfl
        | cons node rest => exact begins node rest pass

theorem race_alone (turns : List Turn) (worker : Worker α) (pass : Pass α) :
    race setting active turns [worker] pass = worker.finish setting active pass := by
  induction turns generalizing worker pass with
  | nil => rfl
  | cons turn turns ih =>
    unfold race
    cases turn.worker with
    | zero => exact (ih _ _).trans (finish_take turn worker pass)
    | succ other => exact ih worker pass

theorem race_nil (turns : List Turn) (pass : Pass α) : race setting active turns [] pass = pass := by
  induction turns with
  | nil => rfl
  | cons turn turns ih => exact ih

/-! ## Whole visits -/

theorem race_whole (turns : List Turn) (whole : ∀ turn ∈ turns, turn.Whole) (queues : List (List Nat))
    (pass : Pass α) :
    race setting active turns (queues.map fun queue => ⟨none, queue⟩) pass =
      (Schedule.interleave (turns.map Turn.worker) queues).foldl (Pass.visit setting active) pass := by
  induction turns generalizing queues pass with
  | nil =>
    rw [List.map_nil, Schedule.interleave, race, List.foldl_map, List.foldl_flatten]
    rfl
  | cons turn turns ih =>
    have later := ih fun other member => whole other (List.mem_cons_of_mem _ member)
    obtain ⟨index, rfl⟩ : ∃ index, turn = .visit index := ⟨_, whole turn List.mem_cons_self⟩
    rw [race, List.map_cons]
    simp only [Turn.worker, List.getElem?_map]
    cases found : queues[index]? with
    | none =>
      rw [Schedule.interleave_none (by simp [found])]
      exact later queues pass
    | some queue =>
      cases queue with
      | nil =>
        -- The turn of a worker that has made all its visits is lost.
        obtain ⟨bound, at_⟩ := List.getElem?_eq_some_iff.mp found
        have same : queues.set index [] = queues := at_ ▸ List.set_getElem_self bound
        rw [Schedule.interleave_none (by simp [found]), ← later queues pass]
        conv_rhs => rw [← same, List.map_set]
        rfl
      | cons node queue =>
        rw [Schedule.interleave_some found, List.foldl_cons, ← later, List.map_set]
        rfl

/-! ## Orders of visits -/

theorem sweep_nil (setting : Setting α) (active : Array Bool) (state : State α) :
    sweep setting [] active state = (List.range setting.graph.nodeCount).foldl (Pass.visit setting active)
      (unvisited setting state) := by
  rw [sweep, race, List.foldl_map, ← Graph.nodes_spans setting.graph setting.concurrency,
    List.foldl_flatMap]
  rfl

theorem sweep_alone (alone : (setting.graph.spans setting.concurrency).length ≤ 1) (turns : List Turn)
    (active : Array Bool) (state : State α) :
    sweep setting turns active state = sweep setting [] active state := by
  unfold sweep
  match setting.graph.spans setting.concurrency, alone with
  | [], _ => exact (race_nil turns _).trans (race_nil [] _).symm
  | [span], _ => exact (race_alone turns _ _).trans (race_alone [] _ _).symm

theorem sweep_interleave (setting : Setting α) {turns : List Turn} (whole : ∀ turn ∈ turns, turn.Whole)
    (active : Array Bool) (state : State α) :
    sweep setting turns active state = (Schedule.interleave (turns.map Turn.worker)
      ((setting.graph.spans setting.concurrency).map Span.nodes)).foldl (Pass.visit setting active)
        (unvisited setting state) := by
  rw [← race_whole turns whole, List.map_map]
  rfl

/-- Where no visit begins before the one before it has ended, a pass makes the visits in some order. -/
theorem sweep_whole (setting : Setting α) {turns : List Turn} (whole : ∀ turn ∈ turns, turn.Whole) :
    ∃ order : List Nat, order.Perm (List.range setting.graph.nodeCount) ∧
      ∀ active state, sweep setting turns active state =
        order.foldl (Pass.visit setting active) (unvisited setting state) := by
  refine ⟨_, ?_, sweep_interleave setting whole⟩
  rw [← Graph.nodes_spans setting.graph setting.concurrency, List.flatMap_def]
  exact Schedule.interleave_perm _ _

/-- The visits are made in the order of the nodes, as those of a single worker always are. -/
def Setting.InOrder (setting : Setting α) : Prop :=
  (setting.graph.spans setting.concurrency).length ≤ 1 ∨ ∀ pass, setting.turns pass = []

theorem Setting.InOrder.sweep (inOrder : setting.InOrder) (pass : Nat) (active : Array Bool) (state : State α) :
    sweep setting (setting.turns pass) active state =
      (List.range setting.graph.nodeCount).foldl (Pass.visit setting active) (unvisited setting state) := by
  rw [← sweep_nil]
  exact inOrder.elim (fun alone => sweep_alone alone _ _ _) fun none => by rw [none]

/-! ## Settings with the same passes -/

theorem sweep_congr {setting other : Setting α}
    (spans : other.graph.spans other.concurrency = setting.graph.spans setting.concurrency)
    (nodeCount : other.graph.nodeCount = setting.graph.nodeCount) (visits : visiting other = visiting setting)
    (turns : List Turn) (active : Array Bool) (state : State α) :
    sweep other turns active state = sweep setting turns active state := by
  have visit : Pass.visit other active = Pass.visit setting active := by
    funext pass node
    by_cases isActive : active.getD node false = true
    · have left : (visiting other node).run pass = ((), pass.visit other active node) := run_visiting isActive
      rw [visits, run_visiting isActive] at left
      exact (congrArg Prod.snd left).symm
    · rw [Pass.visit, Pass.visit, if_neg isActive, if_neg isActive]
  have take : Worker.take other active = Worker.take setting active := by
    funext turn worker pass
    simp only [Worker.take, Worker.visit, Worker.access, visit, visits]
  have races (turns : List Turn) (workers : List (Worker α)) (pass : Pass α) :
      race other active turns workers pass = race setting active turns workers pass := by
    induction turns generalizing workers pass with
    | nil => simp only [race, Worker.finish, visit]
    | cons turn turns ih => simp only [race, take, ih]
  rw [sweep, sweep, races, spans, unvisited, unvisited, nodeCount]

theorem run_congr {setting other : Setting α} (nodeCount : other.graph.nodeCount = setting.graph.nodeCount)
    (volumes : other.nodeVolumes = setting.nodeVolumes)
    (sweeps : ∀ pass active state,
      sweep other (other.turns pass) active state = sweep setting (setting.turns pass) active state)
    (state : State α) : run other state = run setting state := by
  have settles (limit : Nat) (active : Array Bool) (state : State α) (passes : List Nat) :
      settle other limit active state passes = settle setting limit active state passes := by
    induction limit generalizing active state passes with
    | zero => rfl
    | succ limit ih => simp only [settle, sweeps, volumes, nodeCount, ih]
  unfold run
  rw [settles, nodeCount]

/-- The turns do not matter to a single worker. -/
theorem run_alone (alone : (setting.graph.spans setting.concurrency).length ≤ 1) (turns : Nat → List Turn)
    (state : State α) : run { setting with turns } state = run setting state := by
  have inOrder : setting.InOrder := .inl alone
  have other : { setting with turns }.InOrder := .inl alone
  apply run_congr
  · rfl
  · rfl
  · intro pass active state
    rw [inOrder.sweep, other.sweep]
    rfl

end CommunityDetection.LocalMove
