import CommunityDetection.Proofs.Search.Entries
import CommunityDetection.Proofs.Search.State

/-!
# Whether the first iteration records a level

A search opens with the survey of its first iteration and closes with everything after it. The first
iteration records a level exactly if the journal has a summary of it with some moves and fewer
communities than nodes (`records_iff`).
-/

namespace CommunityDetection

namespace Search

open Session

variable {σ α : Type} [Scalar α]

/-- What a search has found after the survey of its first iteration. -/
structure Opening (σ α : Type) where
  plan : Plan σ α
  found : State α × Nat × Option α

def Opening.moved (opening : Opening σ α) : State α := opening.found.1

def Opening.Settled (opening : Opening σ α) : Prop := opening.moved.Settled opening.found.2.1

end Search

namespace Problem

open Session

variable {σ α : Type} [Scalar α] {problem : Problem α} {sampler : Sampler σ α} {watch : Watch α}
  {left : Nat} {opened : Search.Opening σ α}

def opening (problem : Problem α) (sampler : Sampler σ α) : Session α (Search.Opening σ α) := do
  let (state, scale) ← problem.setUp sampler.schedule.additions
  let found ← Search.survey ⟨problem.config, scale, sampler⟩ state
  return ⟨⟨problem.config, scale, sampler⟩, found⟩

def finish (problem : Problem α) (ending : Search.Ending α) : Session α (Result α) := do
  Session.note (.stopped ending.state.iteration ending.terminalState
    ending.state.hierarchy.levelCount)
  return ending.result problem.graph.nodeCount

def goOn (problem : Problem α) (left : Nat) (opened : Search.Opening σ α) :
    Session α (Result α) := do
  let outcome ← Search.weigh opened.plan (left != 0) opened.found
  let ending ← Search.resume opened.plan left outcome
  problem.finish ending

def closing (problem : Problem α) (left : Nat) (opened : Search.Opening σ α) :
    Session α (Result α) := do
  Session.report (Search.summary opened.found)
  problem.goOn left opened

theorem solve_eq (limit : problem.config.maxLevels = left + 1) (sampler : Sampler σ α) :
    problem.solve sampler = problem.opening sampler >>= problem.closing left := by
  unfold solve opening
  rw [limit]
  simp only [Search.iterate_succ, Search.conclude, bind_assoc, pure_bind]
  rfl

theorem opening_gives (gives : (problem.opening sampler).Gives opened) :
    ∃ assignment seeding,
      Seeding.resolve (α := α) problem.graph.nodeCount problem.seeds = .ok (assignment, seeding) ∧
      opened.plan = ⟨problem.config, problem.scale assignment, sampler⟩ ∧
      Search.Moves opened.plan (problem.begin assignment seeding sampler.schedule.additions)
        opened.found.2.1 opened.moved ∧
      opened.found.2.2 = opened.moved.measured opened.plan opened.found.2.1 := by
  obtain ⟨⟨state, scale⟩, setsUp, gives⟩ := gives.bind
  obtain ⟨found, surveys, gives⟩ := gives.bind
  rw [gives.pure]
  obtain ⟨assignment, seeding, resolves, rfl, rfl⟩ := setUp_gives setsUp
  obtain ⟨moves, measured⟩ := Search.survey_gives surveys
  exact ⟨assignment, seeding, resolves, rfl, moves, measured⟩

theorem nodeCount_of_opening (gives : (problem.opening sampler).Gives opened) :
    opened.moved.level.graph.nodeCount = problem.graph.nodeCount := by
  obtain ⟨assignment, seeding, -, -, moves, -⟩ := opening_gives gives
  obtain ⟨start, reached, -, -, shape⟩ := moves.passed
  rw [shape]
  rfl

theorem summary_of_opening (gives : (problem.opening sampler).Gives opened) :
    Search.summary opened.found = .summary 0 opened.found.2.1
      opened.moved.level.communityCount (opened.found.2.2.getD 0) := by
  obtain ⟨assignment, seeding, -, -, moves, -⟩ := opening_gives gives
  obtain ⟨start, reached, -, -, shape⟩ := moves.passed
  have first : opened.moved.iteration = 0 := by
    rw [shape]
    rfl
  rw [← first]
  rfl

theorem opening_writes : (problem.opening sampler).Writes Entry.Plain := by
  refine Writes.bind ?_ fun start _ => ?_
  · refine Writes.stage ?_ (Entry.plain_begins _) (Entry.plain_ends _)
    refine (writes_ofExcept _).bind fun _ _ => ?_
    exact (writes_checkpoint _).bind fun _ _ => writes_pure _
  · exact Search.survey_writes.bind fun _ _ => writes_pure _

theorem goOn_of_settled (settled : opened.Settled) :
    problem.goOn left opened =
      Session.report (.ends .iteration) >>= fun _ =>
        problem.finish ⟨opened.moved, true, .converged, opened.found.2.2⟩ := by
  obtain ⟨plan, moved, count, measured⟩ := opened
  have settled : moved.Settled count := settled
  simp only [goOn, Search.weigh, if_pos settled, bind_assoc, pure_bind]
  rfl

omit [Scalar α] in
theorem finish_writes {ending : Search.Ending α} : (problem.finish ending).Writes Entry.Plain :=
  (writes_note (Entry.plain_note _)).bind fun _ _ => writes_pure _

theorem goOn_writes_of_settled (settled : opened.Settled) :
    (problem.goOn left opened).Writes Entry.Plain := by
  rw [goOn_of_settled settled]
  exact (writes_report (Entry.plain_ends _)).bind fun _ _ => finish_writes

theorem closing_writes_of_settled (settled : opened.Settled) :
    (problem.closing left opened).Writes fun entry =>
      entry = .event (Search.summary opened.found) ∨ entry.Plain :=
  (writes_report (.inl rfl)).bind fun _ _ =>
    (goOn_writes_of_settled settled).mono fun _ plain => .inr plain

theorem goOn_keeps : (problem.goOn left opened).Writes fun _ => True := by
  refine (Search.weigh_writes.mono fun _ _ => trivial).bind fun outcome _ => ?_
  refine Writes.bind ?_ fun _ _ => finish_writes.mono fun _ _ => trivial
  cases outcome with
  | ended ending => exact writes_pure _
  | completed next => exact Search.iterate_keeps

theorem goOn_of_record_error (unsettled : ¬opened.Settled) (start : opened.moved.modularities = #[])
    {failure : Error α} (failed : opened.moved.record = .error failure) (journal : Journal α) :
    problem.goOn left opened watch journal = (.error failure, journal) := by
  obtain ⟨plan, moved, count, measured⟩ := opened
  have unsettled : ¬moved.Settled count := unsettled
  have start : moved.modularities = #[] := start
  have failed : moved.record = .error failure := failed
  have progress : Search.Progress.of plan.config.tolerance moved.modularities.back?
      (measured.getD 0) = .substantial := by
    rw [start]
    rfl
  unfold goOn Search.weigh
  dsimp only
  rw [if_neg unsettled, progress, failed, bind_apply]
  dsimp only
  rw [bind_apply, ofExcept_apply]

/-! ## The journal -/

/-- The first iteration moves some nodes and leaves some of them together. -/
def Records (problem : Problem α) (sampler : Sampler σ α) (watch : Watch α) : Prop :=
  ∃ moves communities modularity,
    .event (.summary 0 moves communities modularity) ∈ (problem.run sampler watch).2 ∧
      moves ≠ 0 ∧ communities ≠ problem.graph.nodeCount

def firstJournal (watch : Watch α) : Journal α :=
  (Journal.start watch).report watch (.begins .leiden)

theorem run_eq (limit : problem.config.maxLevels = left + 1) (sampler : Sampler σ α) (watch : Watch α) :
    (problem.run sampler watch).1 =
      ((problem.opening sampler >>= problem.closing left) watch (firstJournal watch)).1 := by
  rw [← solve_eq limit]
  rfl

theorem plain_opening :
    ∀ entry ∈ (problem.opening sampler watch (firstJournal watch)).2.entries, entry.Plain := by
  have writes : (problem.opening sampler).Writes Entry.Plain := opening_writes
  obtain ⟨written, entries, plain⟩ := writes watch (firstJournal watch)
  intro entry member
  rw [entries] at member
  rcases List.mem_append.mp member with early | first
  · exact plain entry early
  · rw [List.mem_singleton.mp first]
    exact Entry.plain_begins _

theorem not_records_of_plain
    (plain : ∀ entry ∈ (problem.solve sampler watch (firstJournal watch)).2.entries, entry.Plain) :
    ¬problem.Records sampler watch := by
  rintro ⟨moves, communities, modularity, member, -⟩
  rcases mem_run_iff.mp member with last | member
  · cases last
  · exact plain _ member _ _ _ _ rfl

theorem not_records_of_error (limit : problem.config.maxLevels = left + 1) {failure : Error α}
    {journal : Journal α}
    (failed : problem.opening sampler watch (firstJournal watch) = (.error failure, journal)) :
    ¬problem.Records sampler watch := by
  refine not_records_of_plain ?_
  have plain : ∀ entry ∈ (problem.opening sampler watch (firstJournal watch)).2.entries,
      entry.Plain := plain_opening
  rw [solve_eq limit, bind_apply]
  rw [failed] at plain ⊢
  exact plain

theorem records_iff (limit : problem.config.maxLevels = left + 1) {journal : Journal α}
    (opens : problem.opening sampler watch (firstJournal watch) = (.ok opened, journal)) :
    problem.Records sampler watch ↔ ¬opened.Settled := by
  have entries : (problem.solve sampler watch (firstJournal watch)).2 =
      (problem.closing left opened watch journal).2 := by
    rw [solve_eq limit, bind_apply, opens]
  have gives : (problem.opening sampler).Gives opened := ⟨watch, _, congrArg Prod.fst opens⟩
  have nodes := nodeCount_of_opening gives
  have summary := summary_of_opening gives
  -- The first summary is the only one that a settled search writes, and it cannot be taken back.
  constructor
  · rintro ⟨count, communities, modularity, member, moved, together⟩ settled
    rcases mem_run_iff.mp member with last | member
    · cases last
    · have plain : ∀ entry ∈ (problem.opening sampler watch (firstJournal watch)).2.entries,
          entry.Plain := plain_opening
      rw [opens] at plain
      have writes : (problem.closing left opened).Writes fun entry =>
          entry = .event (Search.summary opened.found) ∨ entry.Plain := closing_writes_of_settled settled
      obtain ⟨written, further, kinds⟩ := writes watch journal
      change _ ∈ (problem.solve sampler watch (firstJournal watch)).2.entries at member
      rw [entries, further] at member
      rcases List.mem_append.mp member with late | early
      · rcases kinds _ late with same | plain
        · rw [summary] at same
          cases same
          rcases settled with none | alone
          · exact moved none
          · exact together (alone.trans nodes)
        · exact plain _ _ _ _ rfl
      · exact plain _ early _ _ _ _ rfl
  · intro unsettled
    have member : .event (Search.summary opened.found) ∈
        (problem.solve sampler watch (firstJournal watch)).2.entries := by
      rw [entries]
      exact mem_of_report goOn_keeps watch journal
    rw [summary] at member
    exact ⟨_, _, _, mem_run_iff.mpr (.inr member), fun none => unsettled (.inl none),
      fun alone => unsettled (.inr (alone.trans nodes.symm))⟩

end Problem

end CommunityDetection
