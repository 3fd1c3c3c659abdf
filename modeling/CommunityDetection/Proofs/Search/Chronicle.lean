import CommunityDetection.Proofs.Search.Problem

/-!
# Iterations and levels in a row

Every iteration of a search but the last was left by a way down (`exists_descent`). The last level was
recorded by the last completed iteration, and where all levels are kept, each completed iteration has
recorded one of them (`Chronicle`): of two levels in a row the first was the last one when an iteration
started, which recorded the second (`exists_succeeds`).
-/

namespace CommunityDetection

namespace Search

variable {σ α : Type} [Scalar α] {plan : Plan σ α} {start state moved recorded next : State α}
  {left count i : Nat} {merged : Nat → Nat} {ending : Ending α}

/-- The iteration with number `i` found `previous` as the last level, if there was one, and recorded
`level`. -/
inductive Recording (plan : Plan σ α) (start : State α) (i : Nat) (previous : Option (Array Nat))
    (level : Array Nat) : Prop
  | intro {state moved recorded : State α} {count : Nat} {merged : Nat → Nat}
      (reached : Reached plan start state merged) (iteration : state.iteration = i)
      (found : state.hierarchy.current? = previous) (moves : Moves plan state count moved)
      (records : moved.record = .ok recorded) (last : recorded.hierarchy.current? = some level)

/-- The last level was recorded by the last completed iteration. If all are kept, there is one for each
completed iteration, recorded after the one before. -/
structure Chronicle (plan : Plan σ α) (start state : State α) : Prop where
  fresh : state.hierarchy.current? = none ↔ state.iteration = 0
  last : ∀ level, state.hierarchy.current? = some level → ∃ i previous, i + 1 = state.iteration ∧
    Recording plan start i previous level
  size : state.hierarchy.keepAll = true → state.hierarchy.levels.size = state.iteration
  each : state.hierarchy.keepAll = true → ∀ i level, state.hierarchy.levels[i]? = some level →
    ∃ previous, Recording plan start i previous level ∧
      ∀ j, j + 1 = i → state.hierarchy.levels[j]? = previous

structure SameRecords (state other : State α) : Prop where
  keepAll : state.hierarchy.keepAll = other.hierarchy.keepAll
  levels : state.hierarchy.levels = other.hierarchy.levels
  tracker : state.toTracker = other.toTracker

omit [Scalar α] in
theorem SameRecords.iteration (same : SameRecords next state) : next.iteration = state.iteration :=
  congrArg Tracker.iteration same.tracker

omit [Scalar α] in
theorem SameRecords.modularities (same : SameRecords next state) :
    next.modularities = state.modularities := congrArg Tracker.modularities same.tracker

theorem Chronicle.congr (chronicle : Chronicle plan start state) (same : SameRecords next state) :
    Chronicle plan start next := by
  have current : next.hierarchy.current? = state.hierarchy.current? := congrArg Array.back? same.levels
  constructor
  · rw [current, same.iteration]
    exact chronicle.fresh
  · rw [current, same.iteration]
    exact chronicle.last
  · rw [same.keepAll, same.levels, same.iteration]
    exact chronicle.size
  · rw [same.keepAll, same.levels]
    exact chronicle.each

theorem Moves.sameRecords (moves : Moves plan state count moved) : SameRecords moved state := by
  obtain ⟨start, reached, -, -, rfl⟩ := moves.passed
  exact ⟨rfl, rfl, rfl⟩

theorem Descends.sameRecords (descends : Descends plan recorded next)
    (leads : recorded.hierarchy.Leads recorded.level.graph recorded.part) :
    SameRecords next recorded := by
  cases descends with
  | intro follows =>
    rw [Hierarchy.descend_of_leads leads] at follows
    cases follows
    exact ⟨rfl, rfl, rfl⟩

omit [Scalar α] in
theorem iteration_complete (state : State α) (modularity : α) :
    (state.complete modularity).iteration = state.iteration + 1 := rfl

omit [Scalar α] in
theorem modularities_complete (state : State α) (modularity : α) :
    (state.complete modularity).modularities = state.modularities.push modularity := rfl

omit [Scalar α] in
theorem SameRecords.complete (same : SameRecords next state) (modularity : α) :
    SameRecords (next.complete modularity) (state.complete modularity) :=
  ⟨same.keepAll, same.levels, congrArg (Tracker.complete · modularity) same.tracker⟩

theorem Moves.iteration_recorded (moves : Moves plan state count moved)
    (records : moved.record = .ok recorded) : recorded.iteration = state.iteration := by
  rw [record_ok records]
  exact moves.sameRecords.iteration

/-! ## Iterations -/

theorem Descent.iteration (descent : Descent plan state count moved recorded next) (modularity : α) :
    (next.complete modularity).iteration = state.iteration + 1 := by
  rw [iteration_complete, (descent.descends.sameRecords (leads_recorded descent.records)).iteration,
    descent.moves.iteration_recorded descent.records]

theorem Reached.exists_descent (reached : Reached plan start state merged)
    (started : start.iteration ≤ i) (before : i < state.iteration) :
    ∃ earlier merged count moved recorded next, Reached plan start earlier merged ∧
      earlier.iteration = i ∧ Descent plan earlier count moved recorded next := by
  induction reached with
  | start => omega
  | descended reached descent ih =>
    rw [descent.iteration, Nat.lt_succ_iff_lt_or_eq] at before
    rcases before with before | rfl
    · exact ih before
    · exact ⟨_, _, _, _, _, _, reached, rfl, descent⟩

theorem Ends.levels (ends : Ends plan state ending) :
    SameRecords ending.state state ∨ ∃ count moved recorded modularity, Moves plan state count moved ∧
      moved.record = .ok recorded ∧ ending.state = recorded.complete modularity := by
  cases ends with
  | exhausted => exact .inl ⟨rfl, rfl, rfl⟩
  | stopped step =>
    cases step with
    | settled moves => exact .inl moves.sameRecords
    | decreased moves => exact .inl moves.sameRecords
    | slight moves _ _ records => exact .inr ⟨_, _, _, _, moves, records, rfl⟩
  | last step =>
    cases step with
    | last moves _ _ records => exact .inr ⟨_, _, _, _, moves, records, rfl⟩
    | descended _ _ _ _ follows => cases follows

theorem Ends.iteration_le (ends : Ends plan state ending) :
    ending.state.iteration ≤ state.iteration + 1 := by
  rcases ends.levels with same | ⟨count, moved, recorded, modularity, moves, records, equal⟩
  · rw [same.iteration]
    exact Nat.le_succ _
  · rw [equal, iteration_complete, moves.iteration_recorded records]

/-! ## Levels -/

omit [Scalar α] in
@[simp] theorem Ending.terminalState_result (ending : Ending α) (n : Nat) :
    (ending.result n).terminalState = ending.terminalState := by
  unfold Ending.result
  cases ending.ofSeeds with
  | some modularity => rfl
  | none => rfl

theorem exists_recorded (moves : Moves plan state count moved) (records : moved.record = .ok recorded)
    (kept : recorded.hierarchy.keepAll = true) :
    state.hierarchy.keepAll = true ∧ ∃ level,
      recorded.hierarchy.current? = some level ∧
      recorded.hierarchy.levels = state.hierarchy.levels.push level := by
  have same := moves.sameRecords
  rw [record_ok records] at kept ⊢
  have kept : moved.hierarchy.keepAll = true := kept
  refine ⟨same.keepAll ▸ kept, _, Hierarchy.current?_push _ _, ?_⟩
  simp [Hierarchy.push, kept, same.levels]

omit [Scalar α] in
theorem exists_current (records : moved.record = .ok recorded) :
    ∃ level, recorded.hierarchy.current? = some level := by
  rw [record_ok records]
  exact ⟨_, Hierarchy.current?_push _ _⟩

theorem Chronicle.record (chronicle : Chronicle plan start state)
    (reached : Reached plan start state merged) (moves : Moves plan state count moved)
    (records : moved.record = .ok recorded) (modularity : α) :
    Chronicle plan start (recorded.complete modularity) := by
  have later : (recorded.complete modularity).iteration = state.iteration + 1 := by
    rw [iteration_complete, moves.iteration_recorded records]
  have recording : ∀ level, recorded.hierarchy.current? = some level →
      Recording plan start state.iteration state.hierarchy.current? level :=
    fun level last => .intro reached rfl rfl moves records last
  constructor
  · obtain ⟨level, last⟩ := exists_current records
    rw [later]
    show recorded.hierarchy.current? = none ↔ _
    simp [last]
  · exact fun level last => ⟨_, _, later.symm, recording level last⟩
  · intro kept
    obtain ⟨kept, level, last, pushed⟩ := exists_recorded moves records kept
    show recorded.hierarchy.levels.size = _
    rw [pushed, Array.size_push, chronicle.size kept, later]
  · intro kept i level found
    obtain ⟨kept, newest, last, pushed⟩ := exists_recorded moves records kept
    change recorded.hierarchy.levels[i]? = some level at found
    show ∃ previous, _ ∧ ∀ j, _ → recorded.hierarchy.levels[j]? = previous
    have earlier : ∀ j < state.hierarchy.levels.size,
        recorded.hierarchy.levels[j]? = state.hierarchy.levels[j]? := by
      intro j bound
      rw [pushed, Array.getElem?_push_lt bound, ← Array.getElem?_eq_getElem bound]
    have bound : i < state.hierarchy.levels.size + 1 := by
      have inside := (Array.getElem?_eq_some_iff.mp found).1
      simpa [pushed] using inside
    -- Only the last level is new: it was just recorded, after the level that was the last before.
    rcases Nat.lt_succ_iff_lt_or_eq.mp bound with older | rfl
    · rw [earlier i older] at found
      obtain ⟨previous, recording, before⟩ := chronicle.each kept i level found
      refine ⟨previous, recording, fun j next => ?_⟩
      rw [earlier j (by omega)]
      exact before j next
    · rw [pushed, Array.getElem?_push_size, Option.some_inj] at found
      subst found
      refine ⟨_, chronicle.size kept ▸ recording newest last, fun j next => ?_⟩
      rw [earlier j (by omega), Hierarchy.current?, Array.back?_eq_getElem?, ← next,
        Nat.add_sub_cancel]

theorem Reached.chronicle (reached : Reached plan start state merged)
    (fresh : Chronicle plan start start) : Chronicle plan start state := by
  induction reached with
  | start => exact fresh
  | descended before descent ih =>
    apply (ih.record before descent.moves descent.records _).congr
    exact (descent.descends.sameRecords (leads_recorded descent.records)).complete _

theorem Ends.chronicle (ends : Ends plan state ending) (reached : Reached plan start state merged)
    (chronicle : Chronicle plan start state) : Chronicle plan start ending.state := by
  rcases ends.levels with same | ⟨count, moved, recorded, modularity, moves, records, equal⟩
  · exact chronicle.congr same
  · rw [equal]
    exact chronicle.record reached moves records modularity

end Search

namespace Problem

variable {σ α : Type} [Scalar α] {problem : Problem α} {sampler : Sampler σ α} {watch : Watch α}
  {result : Result α} {dendrogram : Dendrogram} {i : Nat} {fine coarse : Array Nat}

theorem exists_descent (ok : (problem.run sampler watch).1 = .ok result)
    (before : i + 1 < result.ranIterations) :
    ∃ plan state merged count moved recorded next, problem.Enters sampler plan state merged ∧
      state.iteration = i ∧ Search.Descent plan state count moved recorded next := by
  obtain ⟨ending, ⟨assignment, seeding, resolved, run⟩, rfl⟩ := run_ok ok
  obtain ⟨last, merged, reached, ends⟩ := run.ends .start
  have started : i < last.iteration := by
    unfold Search.Ending.result at before
    cases seeds : ending.ofSeeds with
    | some modularity =>
      rw [seeds] at before
      cases (Nat.lt_of_succ_lt_succ before)
    | none =>
      rw [seeds] at before
      exact Nat.lt_of_succ_lt_succ (before.trans_le ends.iteration_le)
  obtain ⟨earlier, merged, count, moved, recorded, next, reached, iteration, descent⟩ :=
    reached.exists_descent (Nat.zero_le i) started
  exact ⟨_, earlier, merged, count, moved, recorded, next, ⟨_, _, resolved, rfl, reached⟩, iteration,
    descent⟩

theorem exists_enters (ok : (problem.run sampler watch).1 = .ok result) (before : i + 1 < result.ranIterations) :
    ∃ plan state merged, problem.Enters sampler plan state merged ∧ state.iteration = i + 1 := by
  obtain ⟨plan, state, merged, count, moved, recorded, next, enters, rfl, descent⟩ := exists_descent ok before
  obtain ⟨assignment, seeding, resolved, rfl, reached⟩ := enters
  exact ⟨_, _, _, ⟨_, _, resolved, rfl, .descended reached descent⟩, descent.iteration _⟩

theorem Reaches.chronicle {ending : Search.Ending α} (reaches : problem.Reaches sampler ending) :
    ∃ assignment seeding,
      Seeding.resolve (α := α) problem.graph.nodeCount problem.seeds = .ok (assignment, seeding) ∧
      Search.Chronicle ⟨problem.config, problem.scale assignment, sampler⟩
        (problem.begin assignment seeding sampler.schedule.additions) ending.state := by
  obtain ⟨assignment, seeding, resolved, run⟩ := reaches
  have fresh : Search.Chronicle ⟨problem.config, problem.scale assignment, sampler⟩
      (problem.begin assignment seeding sampler.schedule.additions)
      (problem.begin assignment seeding sampler.schedule.additions) := by
    refine ⟨iff_of_true rfl rfl, fun level last => ?_, fun _ => rfl, fun _ i level found => ?_⟩
    · cases last
    · simp [begin, Hierarchy.start] at found
  obtain ⟨last, merged, reached, ends⟩ := run.ends .start
  exact ⟨assignment, seeding, resolved, ends.chronicle reached (reached.chronicle fresh)⟩

omit [Scalar α] in
theorem dendrogram_result {ending : Search.Ending α} {n : Nat}
    (kept : (ending.result n).dendrogram = some dendrogram) :
    ending.ofSeeds = none ∧ ending.state.hierarchy.keepAll = true ∧
      dendrogram.levels = ending.state.hierarchy.levels := by
  unfold Search.Ending.result at kept
  cases seeds : ending.ofSeeds with
  | some modularity =>
    rw [seeds] at kept
    cases kept
  | none =>
    rw [seeds] at kept
    dsimp only [Hierarchy.dendrogram?] at kept
    split at kept
    · rename_i all
      cases kept
      exact ⟨rfl, all, rfl⟩
    · cases kept

theorem exists_succeeds (ok : (problem.run sampler watch).1 = .ok result)
    (kept : result.dendrogram = some dendrogram) (first : dendrogram.levels[i]? = some fine)
    (second : dendrogram.levels[i + 1]? = some coarse) :
    ∃ assignment seeding,
      Seeding.resolve (α := α) problem.graph.nodeCount problem.seeds = .ok (assignment, seeding) ∧
      Search.Recording ⟨problem.config, problem.scale assignment, sampler⟩
        (problem.begin assignment seeding sampler.schedule.additions) (i + 1) (some fine) coarse := by
  obtain ⟨ending, reaches, rfl⟩ := run_ok ok
  obtain ⟨assignment, seeding, resolved, chronicle⟩ := reaches.chronicle
  obtain ⟨-, all, levels⟩ := dendrogram_result kept
  rw [levels] at first second
  obtain ⟨previous, recording, before⟩ := chronicle.each all (i + 1) coarse second
  have found := before i rfl
  rw [first] at found
  exact ⟨assignment, seeding, resolved, found ▸ recording⟩

end Problem

end CommunityDetection
