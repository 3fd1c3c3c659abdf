import CommunityDetection.Proofs.LocalMove.Turns

/-!
# Trails of moves

Where visits are made one after another, whatever the passes do to a state is a sequence of moves, each
to the target that was best for its node at that time. `Trail` is this sequence with the number of its
moves, and `run_trail` gives it for the whole phase; what a single move keeps, the phase keeps.
-/

namespace CommunityDetection.LocalMove

variable {α : Type} [Scalar α]

/-! ## The target of a move -/

def stay (setting : Setting α) (state : State α) (node : Nat) : α :=
  gain setting.gamma (setting.nodeVolumes.read node)
    ((weights setting state.assignment node).get (state.assignment.of node))
    (state.communityVolumes.read (state.assignment.of node) - setting.nodeVolumes.read node)

def join (setting : Setting α) (state : State α) (node : Nat) (candidate : Nat × α) : α :=
  gain setting.gamma (setting.nodeVolumes.read node) candidate.2
    (state.communityVolumes.read candidate.1)

/-- A community other than its own that a node may move to, with the weight to it. -/
structure Candidate (setting : Setting α) (state : State α) (node : Nat) (candidate : Nat × α) :
    Prop where
  listed : candidate ∈ weights setting state.assignment node
  leaves : candidate.1 ≠ state.assignment.of node
  allowed : barred state (state.assignment.of node) candidate.1 = false

def consider (setting : Setting α) (state : State α) (node : Nat) (best entry : Nat × α) : Nat × α :=
  if entry.1 = state.assignment.of node ∨ barred state (state.assignment.of node) entry.1 then best
  else if best.2 < join setting state node entry then (entry.1, join setting state node entry)
  else best

theorem best_eq_foldl (setting : Setting α) (state : State α) (node : Nat) :
    best setting state node = (weights setting state.assignment node).foldl (consider setting state node)
      (state.assignment.of node, stay setting state node) := rfl

theorem best_cases (setting : Setting α) (state : State α) (node : Nat) :
    best setting state node = (state.assignment.of node, stay setting state node) ∨
      ∃ candidate, Candidate setting state node candidate ∧
        best setting state node = (candidate.1, join setting state node candidate) ∧
        Relation.TransGen (· < ·) (stay setting state node) (join setting state node candidate) := by
  have all (entries : List (Nat × α)) (listed : ∀ entry ∈ entries,
      entry ∈ weights setting state.assignment node) (first : Nat × α) :
      entries.foldl (consider setting state node) first = first ∨
        ∃ candidate, Candidate setting state node candidate ∧
          entries.foldl (consider setting state node) first =
            (candidate.1, join setting state node candidate) ∧
          Relation.TransGen (· < ·) first.2 (join setting state node candidate) := by
    induction entries generalizing first with
    | nil => exact .inl rfl
    | cons entry entries ih =>
      have later := ih fun other member => listed other (List.mem_cons_of_mem _ member)
      rw [List.foldl_cons, consider]
      split
      · exact later first
      · rename_i accepted
        have fits : Candidate setting state node entry :=
          ⟨listed entry List.mem_cons_self, fun same => accepted (.inl same),
            by simpa using fun bars => accepted (.inr bars)⟩
        split
        · rename_i better
          rcases later (entry.1, join setting state node entry) with kept | ⟨other, fitsOther, reached, climbs⟩
          · exact .inr ⟨entry, fits, kept, .single better⟩
          · exact .inr ⟨other, fitsOther, reached, .head better climbs⟩
        · exact later first
  rw [best_eq_foldl]
  exact all _ (fun _ member => member) _

theorem target?_eq_some {setting : Setting α} {state : State α} {node community : Nat}
    (moves : target? setting state node = some community) :
    ∃ weight, Candidate setting state node (community, weight) ∧
      (best setting state node).2 = join setting state node (community, weight) ∧
      Relation.TransGen (· < ·) (stay setting state node)
        (join setting state node (community, weight)) := by
  unfold target? at moves
  rcases best_cases setting state node with home | ⟨candidate, fits, reached, climbs⟩
  · simp [home] at moves
  · simp only [reached, fits.leaves, if_false, Option.some.injEq] at moves
    subst moves
    exact ⟨candidate.2, fits, by rw [reached], climbs⟩

theorem Candidate.neighbor {setting : Setting α} {state : State α} {node : Nat}
    {candidate : Nat × α} (fits : Candidate setting state node candidate) :
    ∃ v, v ≠ node ∧ setting.graph.Adjacent node v ∧ state.assignment.of v = candidate.1 := by
  have key : candidate.1 ∈ (weights setting state.assignment node).map Prod.fst :=
    List.mem_map_of_mem fits.listed
  rw [weights, Tally.mem_keys_ofPairs, List.map_map] at key
  obtain ⟨entry, member, equal⟩ := List.mem_map.mp key
  obtain ⟨inRow, other⟩ := List.mem_filter.mp member
  exact ⟨entry.1, by simpa using other, ⟨entry, inRow, rfl⟩, equal⟩

/-! ## Sequences of moves -/

/-- The states reached from a state by a number of moves. -/
inductive Trail (setting : Setting α) (start : State α) : Nat → State α → Prop
  | refl : Trail setting start 0 start
  | move {count : Nat} {state : State α} {node community : Nat} (before : Trail setting start count state)
      (bound : node < setting.graph.nodeCount) (moves : target? setting state node = some community) :
      Trail setting start (count + 1) (state.move node (setting.nodeVolumes.read node) community)

theorem Trail.trans {setting : Setting α} {first second third : State α} {left right : Nat}
    (before : Trail setting first left second) (after : Trail setting second right third) :
    Trail setting first (left + right) third := by
  induction after with
  | refl => exact before
  | move _ bound moves ih => exact .move ih bound moves

theorem Trail.keeps {setting : Setting α} {start state : State α} {count : Nat}
    (trail : Trail setting start count state) {property : State α → Prop}
    (kept : ∀ state node community, node < setting.graph.nodeCount → property state →
      target? setting state node = some community →
      property (state.move node (setting.nodeVolumes.read node) community))
    (holds : property start) : property state := by
  induction trail with
  | refl => exact holds
  | move _ bound moves ih => exact kept _ _ _ bound ih moves

theorem Trail.size {setting : Setting α} {start state : State α} {count : Nat}
    (trail : Trail setting start count state) : state.assignment.size = start.assignment.size := by
  induction trail with
  | refl => rfl
  | move _ _ _ ih => exact (Assignment.size_assign _ _ _).trans ih

theorem Trail.drawn {setting : Setting α} {start state : State α} {count : Nat}
    (trail : Trail setting start count state) (closed : setting.graph.Closed)
    (size : start.assignment.size = setting.graph.nodeCount) :
    ∀ v < setting.graph.nodeCount, ∃ u < setting.graph.nodeCount,
      state.assignment.of v = start.assignment.of u := by
  induction trail with
  | refl => exact fun v bound => ⟨v, bound, rfl⟩
  | @move count state node community before bound moves ih =>
    intro v bounded
    have inside : node < state.assignment.size := by rwa [before.size, size]
    obtain ⟨weight, fits, -⟩ := target?_eq_some moves
    obtain ⟨w, -, adjacent, equal⟩ := fits.neighbor
    change ∃ u < _, (state.assignment.assign node community).of v = _
    by_cases same : node = v
    · subst same
      rw [Assignment.of_assign_self inside, show community = state.assignment.of w from equal.symm]
      exact ih w (adjacent.lt_right closed)
    · rw [Assignment.of_assign_of_ne _ same]
      exact ih v bounded

omit [Scalar α] in
theorem start_ok {n tracked : Nat} {assignment : Assignment} {volumes : Cells α} {state : State α}
    (starts : LocalMove.start n assignment volumes tracked = .ok state) :
    state.assignment = assignment ∧ state.communityVolumes = volumes := by
  unfold LocalMove.start at starts
  split at starts
  · cases starts
  · split at starts
    · cases starts
    · dsimp only at starts
      split at starts
      · cases starts
        exact ⟨rfl, rfl⟩
      · cases starts

omit [Scalar α] in
theorem within_of_start {n tracked : Nat} {assignment : Assignment} {volumes : Cells α} {state : State α}
    (starts : LocalMove.start n assignment volumes tracked = .ok state) (size : assignment.size = n) :
    assignment.Within n := by
  refine ⟨size, fun node bound => ?_⟩
  unfold LocalMove.start at starts
  split at starts
  · cases starts
  · split at starts
    · cases starts
    · rename_i none
      simpa using List.find?_eq_none.mp none node (List.mem_range.mpr bound)

/-! ## What passes do -/

omit [Scalar α] in
theorem size_wake (G : Graph α) (assignment : Assignment) (node community : Nat)
    (awake : Array Bool) : (wake G assignment node community awake).size = awake.size := by
  unfold wake
  induction G.row node generalizing awake with
  | nil => rfl
  | cons entry row ih =>
    rw [List.foldl_cons, ih]
    split <;> simp

structure Underway (setting : Setting α) (start : State α) (pass : Pass α) : Prop where
  trail : Trail setting start pass.moves pass.state
  size : pass.awake.size = setting.graph.nodeCount

theorem Underway.visit {setting : Setting α} {start : State α} {pass : Pass α} {active : Array Bool}
    (underway : Underway setting start pass) (size : active.size = setting.graph.nodeCount)
    (node : Nat) : Underway setting start (pass.visit setting active node) := by
  unfold Pass.visit
  split
  · rename_i isActive
    have bound := lt_of_active size isActive
    cases moves : target? setting pass.state node with
    | none => exact underway
    | some community =>
      exact ⟨.move underway.trail bound moves, (size_wake _ _ _ _ _).trans underway.size⟩
  · exact underway

theorem underway_visits {setting : Setting α} {active : Array Bool}
    (size : active.size = setting.graph.nodeCount) (state : State α) (order : List Nat) :
    Underway setting state (order.foldl (Pass.visit setting active) (unvisited setting state)) := by
  have visits (pass : Pass α) (underway : Underway setting state pass) :
      Underway setting state (order.foldl (Pass.visit setting active) pass) := by
    induction order generalizing pass with
    | nil => exact underway
    | cons node order ih => exact ih _ (underway.visit size node)
  exact visits _ ⟨.refl, Array.size_replicate⟩

/-- In no pass a visit begins before the one before it has ended. A single worker cannot do otherwise. -/
def Setting.Sequential (setting : Setting α) : Prop :=
  (setting.graph.spans setting.concurrency).length ≤ 1 ∨ ∀ pass, ∀ turn ∈ setting.turns pass, turn.Whole

theorem Setting.Sequential.sweep {setting : Setting α} (sequential : setting.Sequential) (pass : Nat) :
    ∃ order : List Nat, order.Perm (List.range setting.graph.nodeCount) ∧
      ∀ active state, sweep setting (setting.turns pass) active state =
        order.foldl (Pass.visit setting active) (unvisited setting state) := by
  rcases sequential with alone | whole
  · refine ⟨List.range setting.graph.nodeCount, .refl _, fun active state => ?_⟩
    rw [sweep_alone alone, sweep_nil]
  · exact sweep_whole setting (whole pass)

theorem underway_sweep {setting : Setting α} (sequential : setting.Sequential) (pass : Nat)
    {active : Array Bool} (size : active.size = setting.graph.nodeCount) (state : State α) :
    Underway setting state (LocalMove.sweep setting (setting.turns pass) active state) := by
  obtain ⟨order, -, same⟩ := sequential.sweep pass
  rw [same]
  exact underway_visits size state order

omit [Scalar α] in
theorem Report.moves_eq (report : Report α) : report.moves = report.passes.sum := by
  rw [List.sum_eq_foldl]
  rfl

theorem settle_trail {setting : Setting α} (sequential : setting.Sequential) {limit : Nat}
    {active : Array Bool} {state : State α} {passes : List Nat}
    (size : active.size = setting.graph.nodeCount)
    (settled : (settle setting limit active state passes).failure? = none) :
    ∃ count, Trail setting state count (settle setting limit active state passes).state ∧
      (settle setting limit active state passes).moves = passes.sum + count := by
  induction limit generalizing active state passes with
  | zero => simp [settle] at settled
  | succ limit ih =>
    have pass := underway_sweep sequential passes.length size state
    unfold settle at settled ⊢
    dsimp only at settled ⊢
    generalize sweep setting (setting.turns passes.length) active state = swept at pass settled ⊢
    cases drift : Volumes.drift? ⟨setting.nodeVolumes, swept.state.communityVolumes⟩
        swept.state.assignment with
    | some fault => simp [drift] at settled
    | none =>
      simp only [drift] at settled ⊢
      split
      · refine ⟨_, pass.trail, ?_⟩
        rw [Report.moves_eq, List.sum_reverse, List.sum_cons]
        omega
      · rename_i further
        rw [if_neg further] at settled
        obtain ⟨count, trail, moves⟩ := ih pass.size settled
        refine ⟨_, pass.trail.trans trail, ?_⟩
        rw [moves, List.sum_cons]
        omega

theorem run_trail {setting : Setting α} (sequential : setting.Sequential) {state : State α}
    (settled : (run setting state).failure? = none) :
    Trail setting state (run setting state).moves (run setting state).state := by
  obtain ⟨count, trail, moves⟩ := settle_trail sequential (by simp) settled
  unfold run
  dsimp only
  rw [moves]
  simpa using trail

end CommunityDetection.LocalMove
