import CommunityDetection.Proofs.LocalMove.Sizes
import CommunityDetection.Proofs.LocalMove.Walks

/-!
# Phases with a single pass of moves

Where the first pass moves some nodes and the nodes that it wakes are at rest after it, the phase ends with
the second pass (`run_of_pass`). So it does where one node moves, for which those before it wait, and all
others rest then (`run_single`). Where all nodes were alone, the volumes are still right after that
(`Lone.drift?_move`).
-/

namespace CommunityDetection.LocalMove

variable {α : Type} [Scalar α] {setting : Setting α} {start state : State α} {active : Array Bool}
  {node community : Nat} {before after : List Nat}

theorem visits_single (pass : Pass α)
    (waits : ∀ other ∈ before, active.getD other false = true → target? setting pass.state other = none)
    (isActive : active.getD node false = true) (moves : target? setting pass.state node = some community)
    (rests : ∀ other ∈ after, active.getD other false = true →
      target? setting (pass.state.move node (setting.nodeVolumes.read node) community) other = none) :
    (before ++ node :: after).foldl (Pass.visit setting active) pass =
      { state := pass.state.move node (setting.nodeVolumes.read node) community
        moves := pass.moves + 1
        awake := wake setting.graph
          (pass.state.move node (setting.nodeVolumes.read node) community).assignment node community
          pass.awake } := by
  rw [List.foldl_append, List.foldl_cons, visits_eq_self waits, visit_eq_move isActive moves]
  exact visits_eq_self rests

theorem exists_passLimit (n : Nat) : ∃ limit, passLimit n = limit + 2 := by
  have positive : 0 < (n * (1 <<< 65)) ^ n := by
    cases n with
    | zero => exact Nat.one_pos
    | succ n => exact Nat.pow_pos (Nat.mul_pos n.succ_pos (by decide))
  obtain ⟨limit, equal⟩ := Nat.exists_eq_add_of_lt positive
  exact ⟨limit, congrArg (· + 1) (equal.trans (by omega))⟩

theorem run_of_pass {pass : Pass α}
    (first : sweep setting (setting.turns 0) (Array.replicate setting.graph.nodeCount true) start = pass)
    (moved : pass.moves ≠ 0)
    (steady : Volumes.drift? ⟨setting.nodeVolumes, pass.state.communityVolumes⟩ pass.state.assignment = none)
    (shared : pass.state.occupied ≠ setting.graph.nodeCount) (inOrder : setting.turns 1 = [])
    (rests : ∀ node < setting.graph.nodeCount, pass.awake.getD node false = true →
      target? setting pass.state node = none) :
    run setting start = ⟨pass.state, [pass.moves, 0], none⟩ := by
  obtain ⟨limit, limits⟩ := exists_passLimit setting.graph.nodeCount
  have second : sweep setting (setting.turns 1) pass.awake pass.state = unvisited setting pass.state := by
    rw [inOrder, sweep_nil]
    exact visits_eq_self fun node inRange => rests node (List.mem_range.mp inRange)
  have goesOn : ¬(pass.moves = 0 ∨ pass.state.occupied = setting.graph.nodeCount) := not_or.mpr ⟨moved, shared⟩
  rw [run, limits, settle]
  simp only [List.length_nil, first, steady, if_neg goesOn]
  rw [settle]
  simp only [List.length_singleton, second, unvisited, steady, true_or, if_true, List.reverse_cons, List.reverse_nil,
    List.nil_append, List.singleton_append]

/-- One node moves in the first pass, for which those before it wait, and all others rest then. -/
theorem run_single
    (order : ∀ active, sweep setting (setting.turns 0) active start =
      walk setting active (before ++ node :: after) start)
    (bound : node < setting.graph.nodeCount) (waits : ∀ other ∈ before, target? setting start other = none)
    (moves : target? setting start node = some community)
    (rests : ∀ other ∈ after,
      target? setting (start.move node (setting.nodeVolumes.read node) community) other = none)
    (woken : ∀ other, setting.graph.Adjacent node other → other ≠ node →
      (start.assignment.assign node community).of other ≠ community →
      target? setting (start.move node (setting.nodeVolumes.read node) community) other = none)
    (steady : let moved := start.move node (setting.nodeVolumes.read node) community
      Volumes.drift? ⟨setting.nodeVolumes, moved.communityVolumes⟩ moved.assignment = none)
    (shared : (start.move node (setting.nodeVolumes.read node) community).occupied ≠ setting.graph.nodeCount)
    (inOrder : setting.turns 1 = []) :
    run setting start = ⟨start.move node (setting.nodeVolumes.read node) community, [1, 0], none⟩ := by
  have isActive : (Array.replicate setting.graph.nodeCount true).getD node false = true := by simp [bound]
  have first := (order _).trans (visits_single (unvisited setting start) (fun other member _ => waits other member)
    isActive moves fun other member _ => rests other member)
  refine run_of_pass first (by simp [unvisited]) steady shared inOrder fun other bounded awake => ?_
  have inside : other < (unvisited setting start).awake.size := by simpa [unvisited] using bounded
  rcases (awake_wake inside).mp awake with before | ⟨adjacent, apart, outside⟩
  · have asleep : (unvisited setting start).awake.getD other false = false := getD_replicate _ _ _
    exact absurd (asleep.symm.trans before) (by decide)
  · exact woken other adjacent apart outside

theorem State.of_move {state : State α} (listed : node < state.assignment.size) (volume : α) (community other : Nat) :
    (state.move node volume community).assignment.of other =
      if other = node then community else state.assignment.of other := by
  rw [State.move, Assignment.of_assign listed, Function.update_apply]

/-! ## Lone nodes -/

/-- Every node is alone in a community of its name, with its volume. -/
structure Lone (setting : Setting α) (start : State α) : Prop where
  assignment : start.assignment = .singletons setting.graph.nodeCount
  volumes : start.communityVolumes = Volumes.gather start.assignment setting.nodeVolumes
    (Cells.zeros setting.graph.nodeCount) (List.range setting.graph.nodeCount)
  size : setting.nodeVolumes.size = setting.graph.nodeCount
  counted : Counted setting.graph.nodeCount start

section Lone

variable {lower upper : Nat}

theorem Lone.of (lone : Lone setting start) (bound : node < setting.graph.nodeCount) :
    start.assignment.of node = node := by
  rw [lone.assignment, Assignment.of_singletons bound]

theorem Lone.sizeOf (lone : Lone setting start) (bound : node < setting.graph.nodeCount) :
    start.sizeOf node = 1 := by
  rw [lone.counted.sizes node bound, lone.assignment, Assignment.members_singletons bound, Finset.card_singleton]

theorem Lone.volume (lone : Lone setting start) (bound : node < setting.graph.nodeCount) :
    start.communityVolumes.read node = 0 + setting.nodeVolumes.read node := by
  have single (v : Nat) : v ∈ [node] ↔ v < setting.graph.nodeCount ∧ start.assignment.of v = node := by
    rw [List.mem_singleton]
    constructor
    · rintro rfl
      exact ⟨bound, lone.of bound⟩
    · rintro ⟨inside, same⟩
      rw [← same, lone.of inside]
  rw [lone.volumes, Volumes.read_gather_of_members bound (List.pairwise_singleton _ _) single]
  rfl

theorem Lone.of_move (lone : Lone setting start) (inside : upper < setting.graph.nodeCount) (volume : α)
    (bound : node < setting.graph.nodeCount) :
    (start.move upper volume lower).assignment.of node = if node = upper then lower else node := by
  rw [State.of_move (by rwa [lone.counted.within.size])]
  split
  · rfl
  · exact lone.of bound

theorem Lone.occupied_move (lone : Lone setting start) (below : lower < upper)
    (inside : upper < setting.graph.nodeCount) (volume : α) :
    (start.move upper volume lower).occupied ≠ setting.graph.nodeCount := by
  have bound := below.trans inside
  have leaves : lower ≠ start.assignment.of upper := by
    rw [lone.of inside]
    exact below.ne
  refine ((lone.counted.move inside bound leaves volume).occupied_lt bound inside below.ne ?_).ne
  rw [lone.of_move inside _ bound, lone.of_move inside _ inside, if_neg below.ne, if_pos rfl]

theorem Lone.volumes_move (lone : Lone setting start) (inside : upper < setting.graph.nodeCount) (volume : α) :
    (start.move upper volume lower).communityVolumes =
      (start.communityVolumes.add upper (-volume)).add lower volume := by
  simp only [State.move, lone.of inside]

theorem Lone.size_volumes (lone : Lone setting start) : start.communityVolumes.size = setting.graph.nodeCount := by
  simp [lone.volumes]

theorem Lone.volume_joined (lone : Lone setting start) (below : lower < upper)
    (inside : upper < setting.graph.nodeCount) (volume : α) :
    (start.move upper volume lower).communityVolumes.read lower =
      0 + setting.nodeVolumes.read lower + volume := by
  have bound := below.trans inside
  rw [lone.volumes_move inside, Cells.read_add_self (by rwa [Cells.size_add, lone.size_volumes]),
    Cells.read_add_of_ne _ below.ne', lone.volume bound]

theorem Lone.volume_other (lone : Lone setting start) (inside : upper < setting.graph.nodeCount) (volume : α)
    (bound : node < setting.graph.nodeCount) (apart : node ≠ lower) (other : node ≠ upper) :
    (start.move upper volume lower).communityVolumes.read node = 0 + setting.nodeVolumes.read node := by
  rw [lone.volumes_move inside, Cells.read_add_of_ne _ apart.symm, Cells.read_add_of_ne _ other.symm,
    lone.volume bound]

theorem Lone.memberSums_move (lone : Lone setting start) (inside : upper < setting.graph.nodeCount) (volume : α)
    (bound : community < setting.graph.nodeCount) {listed : List Nat} (increasing : listed.Pairwise (· < ·))
    (members : ∀ v, v ∈ listed ↔
      v < setting.graph.nodeCount ∧ (if v = upper then lower else v) = community) :
    let moved := start.move upper volume lower
    (Volumes.memberSums ⟨setting.nodeVolumes, moved.communityVolumes⟩ moved.assignment).read community =
      listed.foldl (fun sum node => sum + setting.nodeVolumes.read node) 0 := by
  intro moved
  have size : moved.communityVolumes.size = setting.graph.nodeCount := by
    rw [lone.volumes_move inside, Cells.size_add, Cells.size_add, lone.size_volumes]
  rw [Volumes.memberSums, size, lone.size]
  refine Volumes.read_gather_of_members bound increasing (fun v => ?_) _
  refine (members v).trans (and_congr_right fun bounded => ?_)
  rw [lone.of_move inside _ bounded]

/-- After the upper one of two lone nodes has joined the lower one, the volumes are as if they were added up
again. -/
theorem Lone.drift?_move [Volumes.Steady α] (lone : Lone setting start) (below : lower < upper)
    (inside : upper < setting.graph.nodeCount)
    (cancels : 0 + setting.nodeVolumes.read upper + -setting.nodeVolumes.read upper = 0) :
    let moved := start.move upper (setting.nodeVolumes.read upper) lower
    Volumes.drift? ⟨setting.nodeVolumes, moved.communityVolumes⟩ moved.assignment = none := by
  intro moved
  have size : moved.communityVolumes.size = setting.graph.nodeCount := by
    rw [lone.volumes_move inside, Cells.size_add, Cells.size_add, lone.size_volumes]
  refine Volumes.drift?_eq_none_of_sums (fun node bound => ?_) fun community bound => ?_
  · rw [lone.size] at bound
    rw [lone.of_move inside _ bound, size]
    split <;> omega
  · rw [size] at bound
    by_cases joined : community = lower
    · subst joined
      have both (v : Nat) : v ∈ [community, upper] ↔
          v < setting.graph.nodeCount ∧ (if v = upper then community else v) = community := by
        simp only [List.mem_cons, List.not_mem_nil, or_false]
        split <;> omega
      rw [lone.memberSums_move inside _ bound (by simpa using below) both, lone.volume_joined below inside]
      rfl
    · by_cases left : community = upper
      · subst left
        have none (v : Nat) : v ∈ [] ↔
            v < setting.graph.nodeCount ∧ (if v = community then lower else v) = community := by
          simp only [List.not_mem_nil, false_iff]
          split <;> omega
        rw [lone.memberSums_move inside _ bound .nil none, lone.volumes_move inside,
          Cells.read_add_of_ne _ below.ne, Cells.read_add_self (by rwa [lone.size_volumes]), lone.volume bound,
          cancels]
        rfl
      · have single (v : Nat) : v ∈ [community] ↔
            v < setting.graph.nodeCount ∧ (if v = upper then lower else v) = community := by
          rw [List.mem_singleton]
          split <;> omega
        rw [lone.memberSums_move inside _ bound (List.pairwise_singleton _ _) single,
          lone.volume_other inside _ bound joined left]
        rfl

end Lone

end CommunityDetection.LocalMove
