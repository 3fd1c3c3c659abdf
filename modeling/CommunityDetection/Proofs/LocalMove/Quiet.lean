import CommunityDetection.Proofs.LocalMove.Race

/-!
# Passes that move nothing

Before a visit counts a move it only reads (`reading_visiting`). So while no move is counted, all workers
read the state that the pass began with, and decide as if they were alone: a pass without moves left the
state as it was, and every active node was at rest in it (`sweep_quiet`).
-/

namespace CommunityDetection.LocalMove

variable {α : Type} [Scalar α] {setting : Setting α} {active : Array Bool} {state : State α}
  {pass : Pass α} {node : Nat} {before after workers : List (Worker α)} {worker : Worker α}

/-! ## Programs that only read -/

def Access.Reads : {ρ : Type} → Access α ρ → Prop
  | _, .communityOf _ | _, .volumeOf _ | _, .sizeOf _ => True
  | _, _ => False

def Access.Counts : {ρ : Type} → Access α ρ → Prop
  | _, .count => True
  | _, _ => False

theorem Access.Reads.run {ρ : Type} {access : Access α ρ} (reads : access.Reads) (pass : Pass α) :
    (access.run pass).2 = pass := by
  cases access with
  | communityOf | volumeOf | sizeOf => rfl
  | _ => exact reads.elim

theorem Access.Counts.run {ρ : Type} {access : Access α ρ} (counts : access.Counts) (pass : Pass α) :
    (access.run pass).2.moves ≠ 0 := by
  cases access with
  | count => exact Nat.succ_ne_zero _
  | _ => exact counts.elim

theorem moves_run_ne_zero {ρ : Type} (access : Access α ρ) (pass : Pass α) (moved : pass.moves ≠ 0) :
    (access.run pass).2.moves ≠ 0 := by
  cases access with
  | count => exact Nat.succ_ne_zero _
  | _ => exact moved

namespace Program

variable {β γ : Type}

/-- A program that does nothing but read before it counts a move. -/
def Reading : Program α β → Prop
  | .done _ => True
  | .next access answered => access.Counts ∨ access.Reads ∧ ∀ answer, (answered answer).Reading

omit [Scalar α] in
theorem Reading.bind {program : Program α β} {after : β → Program α γ} (first : program.Reading)
    (second : ∀ value, (after value).Reading) : (program >>= after).Reading := by
  induction program with
  | done value => exact second value
  | next access answered ih => exact first.imp_right (.imp_right fun reads answer => ih answer (reads answer))

omit [Scalar α] in
theorem reading_ask {ρ : Type} {access : Access α ρ} (reads : access.Reads) {after : ρ → Program α γ}
    (goesOn : ∀ answer, (after answer).Reading) : (ask access >>= after).Reading :=
  Or.inr ⟨reads, goesOn⟩

omit [Scalar α] in
theorem reading_foldlM {step : β → γ → Program α β} (steps : ∀ value item, (step value item).Reading)
    (items : List γ) (first : β) : (items.foldlM step first).Reading := by
  induction items generalizing first with
  | nil => trivial
  | cons item items ih =>
    rw [List.foldlM_cons]
    exact (steps first item).bind ih

theorem Reading.run {program : Program α β} (reading : program.Reading) (pass : Pass α) :
    (program.run pass).2.moves ≠ 0 ∨ (program.run pass).2 = pass := by
  induction program generalizing pass with
  | done => exact .inr rfl
  | next access answered ih =>
    rcases reading with counts | ⟨reads, goesOn⟩
    · have moved := counts.run pass
      exact .inl (run_preserves (p := fun pass => pass.moves ≠ 0) moves_run_ne_zero (answered _) moved)
    · rw [run_next, reads.run]
      exact ih _ (goesOn _) pass

end Program

open Program (reading_ask reading_foldlM)

theorem reading_weigh (others : Row α) : (weigh others).Reading :=
  reading_foldlM (fun _ _ => reading_ask (by trivial) fun _ => by trivial) others []

theorem reading_compare (gamma volume : α) (home : Nat) (alone : Bool) (best candidate : Nat × α) :
    (compare gamma volume home alone best candidate).Reading := by
  unfold compare bars
  split
  · trivial
  · refine Program.Reading.bind ?_ fun barring => ?_
    · split
      · exact reading_ask (by trivial) fun _ => trivial
      · trivial
    · split
      · trivial
      · exact reading_ask (by trivial) fun _ => trivial

theorem reading_visiting (setting : Setting α) (node : Nat) : (visiting setting node).Reading := by
  refine reading_ask (by trivial) fun home => ?_
  refine (reading_weigh _).bind fun weights => ?_
  refine reading_ask (by trivial) fun rest => reading_ask (by trivial) fun size => ?_
  refine (reading_foldlM (reading_compare _ _ _ _) _ _).bind fun best => ?_
  split
  · exact Or.inl trivial
  · trivial

/-! ## Passes without moves -/

/-- The workers while no move is counted. -/
structure Quiet (setting : Setting α) (active : Array Bool) (state : State α)
    (workers : List (Worker α)) : Prop where
  reading : ∀ worker ∈ workers, ∀ node program, worker.current = some (node, program) →
    program.Reading
  begun : ∀ worker ∈ workers, ∀ node program, worker.current = some (node, program) →
    active.getD node false = true ∧
      program.run (unvisited setting state) = (visiting setting node).run (unvisited setting state)
  rests : ∀ node < setting.graph.nodeCount, active.getD node false = true →
    (∃ worker ∈ workers, node ∈ worker.nodes) ∨ target? setting state node = none

theorem rest_of_visit {active : Array Bool} (isActive : active.getD node false = true)
    (still : pass.visit setting active node = pass) : target? setting pass.state node = none := by
  cases moves : target? setting pass.state node with
  | none => rfl
  | some community =>
    have counted : (pass.visit setting active node).moves = pass.moves + 1 := by
      rw [Pass.visit, if_pos isActive, moves]
    rw [still] at counted
    omega

theorem Quiet.begun_run (quiet : Quiet setting active state (before ++ worker :: after))
    {program : Program α Unit} (current : worker.current = some (node, program)) :
    (program.run (unvisited setting state)).2.moves ≠ 0 ∨
      (program.run (unvisited setting state)).2 = unvisited setting state ∧
        target? setting state node = none := by
  have member : worker ∈ before ++ worker :: after := by simp
  refine ((quiet.reading worker member node program current).run _).imp_right fun same => ⟨same, ?_⟩
  obtain ⟨isActive, runs⟩ := quiet.begun worker member node program current
  rw [runs, run_visiting isActive] at same
  exact rest_of_visit isActive same

/-- The turn of a worker that has not moved its node. -/
theorem Quiet.turn {other : Worker α} (quiet : Quiet setting active state (before ++ worker :: after))
    (reading : ∀ node program, other.current = some (node, program) → program.Reading)
    (begun : ∀ node program, other.current = some (node, program) → active.getD node false = true ∧
      program.run (unvisited setting state) = (visiting setting node).run (unvisited setting state))
    (own : ∀ node ∈ worker.nodes, active.getD node false = true →
      node ∈ other.nodes ∨ target? setting state node = none) :
    Quiet setting active state (before ++ other :: after) := by
  refine ⟨forall_mem_middle.mpr ⟨reading, (forall_mem_middle.mp quiet.reading).2⟩,
    forall_mem_middle.mpr ⟨begun, (forall_mem_middle.mp quiet.begun).2⟩, fun node bound isActive => ?_⟩
  rcases quiet.rests node bound isActive with ⟨found, member, listed⟩ | rests
  · rcases mem_middle.mp member with rfl | elsewhere
    · exact (own node listed isActive).imp_left fun listed => ⟨other, mem_middle.mpr (.inl rfl), listed⟩
    · exact .inl ⟨found, mem_middle.mpr (.inr elsewhere), listed⟩
  · exact .inr rests

theorem Quiet.leave {program : Program α Unit} {rest : List Nat}
    (quiet : Quiet setting active state (before ++ ⟨some (node, program), rest⟩ :: after))
    (decided : target? setting state node = none) :
    Quiet setting active state (before ++ ⟨none, rest⟩ :: after) := by
  refine quiet.turn (fun _ _ => nofun) (fun _ _ => nofun) fun other listed isActive => ?_
  rcases List.mem_cons.mp listed with rfl | waits
  · exact .inr decided
  · exact .inl waits

theorem Quiet.start {rest : List Nat}
    (quiet : Quiet setting active state (before ++ ⟨none, node :: rest⟩ :: after)) :
    Quiet setting active state
      (before ++ ⟨if active.getD node false then some (node, visiting setting node) else none, rest⟩ :: after) := by
  split
  · rename_i isActive
    refine quiet.turn ?_ ?_ fun other listed _ => .inl listed
    · rintro _ _ ⟨⟩
      exact reading_visiting setting node
    · rintro _ _ ⟨⟩
      exact ⟨isActive, rfl⟩
  · rename_i inactive
    refine quiet.turn (fun _ _ => nofun) (fun _ _ => nofun) fun other listed isActive => ?_
    rcases List.mem_cons.mp listed with rfl | waits
    · exact absurd isActive inactive
    · exact .inl waits

theorem Quiet.run {program : Program α Unit} {rest : List Nat}
    (quiet : Quiet setting active state (before ++ ⟨some (node, program), rest⟩ :: after)) :
    (program.run (unvisited setting state)).2.moves ≠ 0 ∨
      (program.run (unvisited setting state)).2 = unvisited setting state ∧
        Quiet setting active state (before ++ ⟨none, rest⟩ :: after) :=
  (quiet.begun_run rfl).imp_right fun still => ⟨still.1, quiet.leave still.2⟩

theorem Quiet.visit {rest : List Nat}
    (quiet : Quiet setting active state (before ++ ⟨none, node :: rest⟩ :: after)) :
    ((unvisited setting state).visit setting active node).moves ≠ 0 ∨
      (unvisited setting state).visit setting active node = unvisited setting state ∧
        Quiet setting active state (before ++ ⟨none, rest⟩ :: after) := by
  have started := quiet.start
  by_cases isActive : active.getD node false = true
  · rw [if_pos isActive] at started
    have ran := started.run
    rwa [run_visiting isActive] at ran
  · rw [if_neg isActive] at started
    rw [Pass.visit, if_neg isActive]
    exact .inr ⟨rfl, started⟩

theorem Quiet.access {ρ : Type} {access : Access α ρ} {answered : ρ → Program α Unit} {rest : List Nat}
    (quiet : Quiet setting active state (before ++ ⟨some (node, .next access answered), rest⟩ :: after)) :
    (access.run (unvisited setting state)).2.moves ≠ 0 ∨
      (access.run (unvisited setting state)).2 = unvisited setting state ∧
        Quiet setting active state
          (before ++ ⟨some (node, answered (access.run (unvisited setting state)).1), rest⟩ :: after) := by
  obtain ⟨isActive, runs⟩ := (forall_mem_middle.mp quiet.begun).1 node _ rfl
  rcases (forall_mem_middle.mp quiet.reading).1 node _ rfl with counts | ⟨reads, goesOn⟩
  · exact .inl (counts.run _)
  · refine .inr ⟨reads.run _, quiet.turn ?_ ?_ fun _ listed _ => .inl listed⟩
    · rintro _ _ ⟨⟩
      exact goesOn _
    · -- What is left of the visit still ends as the whole visit does in the state at the start.
      rintro _ _ ⟨⟩
      rw [Program.run_next, reads.run] at runs
      exact ⟨isActive, runs⟩

theorem Quiet.take (turn : Turn)
    (quiet : Quiet setting active state (before ++ worker :: after)) :
    (worker.take setting active turn (unvisited setting state)).2.moves ≠ 0 ∨
      (worker.take setting active turn (unvisited setting state)).2 = unvisited setting state ∧
        Quiet setting active state
          (before ++ (worker.take setting active turn (unvisited setting state)).1 :: after) := by
  obtain ⟨current, rest⟩ := worker
  cases turn with
  | visit =>
    match current, rest with
    | some (_, _), _ => exact quiet.run
    | none, [] => exact .inr ⟨rfl, quiet⟩
    | none, _ :: _ => exact quiet.visit
  | access =>
    match current, rest with
    | some (_, .next _ _), _ => exact quiet.access
    | some (_, .done _), [] => exact quiet.run.imp_right fun left => ⟨rfl, left.2⟩
    | some (_, .done _), _ :: _ => exact quiet.run.imp_right fun left => ⟨rfl, left.2.start⟩
    | none, [] => exact .inr ⟨rfl, quiet⟩
    | none, _ :: _ => exact .inr ⟨rfl, quiet.start⟩

theorem Quiet.visits {rest : List Nat} (quiet : Quiet setting active state (⟨none, rest⟩ :: workers)) :
    (rest.foldl (Pass.visit setting active) (unvisited setting state)).moves ≠ 0 ∨
      rest.foldl (Pass.visit setting active) (unvisited setting state) = unvisited setting state ∧
        Quiet setting active state workers := by
  induction rest with
  | nil =>
    refine .inr ⟨rfl, (List.forall_mem_cons.mp quiet.reading).2, (List.forall_mem_cons.mp quiet.begun).2,
      fun node bound isActive => (quiet.rests node bound isActive).imp_left ?_⟩
    rintro ⟨worker, member, listed⟩
    rcases List.mem_cons.mp member with rfl | member
    · cases listed
    · exact ⟨worker, member, listed⟩
  | cons node rest ih =>
    have first : Quiet setting active state ([] ++ ⟨none, node :: rest⟩ :: workers) := quiet
    rw [List.foldl_cons]
    rcases first.visit with moved | ⟨same, left⟩
    · exact .inl (visits_preserve (p := fun pass => pass.moves ≠ 0) moves_run_ne_zero rest moved)
    · rw [same]
      exact ih left

theorem Quiet.finish (quiet : Quiet setting active state (worker :: workers)) :
    (worker.finish setting active (unvisited setting state)).moves ≠ 0 ∨
      worker.finish setting active (unvisited setting state) = unvisited setting state ∧
        Quiet setting active state workers := by
  obtain ⟨current, rest⟩ := worker
  cases current with
  | none => exact quiet.visits
  | some at_ =>
    have first : Quiet setting active state ([] ++ ⟨some at_, rest⟩ :: workers) := quiet
    unfold Worker.finish
    dsimp only
    rcases first.run with moved | ⟨same, left⟩
    · exact .inl (visits_preserve (p := fun pass => pass.moves ≠ 0) moves_run_ne_zero rest moved)
    · rw [same]
      exact Quiet.visits left

theorem Quiet.race (turns : List Turn) (quiet : Quiet setting active state workers) :
    (race setting active turns workers (unvisited setting state)).moves ≠ 0 ∨
      race setting active turns workers (unvisited setting state) = unvisited setting state ∧
        Quiet setting active state [] := by
  induction turns generalizing workers with
  | nil =>
    unfold LocalMove.race
    induction workers with
    | nil => exact .inr ⟨rfl, quiet⟩
    | cons worker workers ih =>
      rw [List.foldl_cons]
      rcases quiet.finish with moved | ⟨same, left⟩
      · exact .inl (race_preserves (p := fun pass => pass.moves ≠ 0) moves_run_ne_zero [] workers moved)
      · rw [same]
        exact ih left
  | cons turn turns ih =>
    unfold LocalMove.race
    cases found : workers[turn.worker]? with
    | none => exact ih quiet
    | some worker =>
      obtain ⟨bound, rfl⟩ := List.getElem?_eq_some_iff.mp found
      rw [← List.take_append_drop turn.worker workers, List.drop_eq_getElem_cons bound] at quiet
      dsimp only
      rcases quiet.take turn with moved | ⟨same, left⟩
      · -- No later turn takes back a move that was counted.
        exact .inl (race_preserves (p := fun pass => pass.moves ≠ 0) moves_run_ne_zero turns _ moved)
      · rw [same, List.set_eq_take_append_cons_drop, if_pos bound]
        exact ih left

/-- A pass that moves nothing changes nothing, and each node that it visits is at rest. -/
theorem sweep_quiet {turns : List Turn} (still : (sweep setting turns active state).moves = 0) :
    sweep setting turns active state = unvisited setting state ∧
      ∀ node < setting.graph.nodeCount, active.getD node false = true →
        target? setting state node = none := by
  have starts : Quiet setting active state ((setting.graph.spans setting.concurrency).map .on) := by
    refine ⟨fun worker member => ?_, fun worker member => ?_, fun node bound _ => .inl ?_⟩
    · obtain ⟨span, -, rfl⟩ := List.mem_map.mp member
      exact fun _ _ => nofun
    · obtain ⟨span, -, rfl⟩ := List.mem_map.mp member
      exact fun _ _ => nofun
    · rw [← List.mem_range, ← Graph.nodes_spans setting.graph setting.concurrency] at bound
      obtain ⟨span, member, listed⟩ := List.mem_flatMap.mp bound
      exact ⟨.on span, List.mem_map_of_mem member, listed⟩
  obtain ⟨same, quiet⟩ := (starts.race turns).resolve_left (not_not.mpr still)
  refine ⟨same, fun node bound isActive => (quiet.rests node bound isActive).resolve_left ?_⟩
  simp

end CommunityDetection.LocalMove
