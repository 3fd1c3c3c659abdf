import CommunityDetection.Proofs.LocalMove.Leaves
import CommunityDetection.Proofs.LocalMove.Single

/-!
# A node between two workers

On a path of three nodes, the first two of them with one worker and the last with another, the node in the
middle has room for one neighbour only. In the order of the nodes it goes to the first one
(`Contested.run_inOrder`), but where the second worker is earlier, the last node comes to it
(`Contested.run_raced`). So the communities depend on the schedule, although all visits are made one after
another.
-/

namespace CommunityDetection.LocalMove

variable {α : Type} [Scalar α] {setting : Setting α} {start : State α} {far : Nat} {outer inner gamma : α}

/-- With volumes `outer` at the ends and `inner` in the middle, two nodes of the path attract each other, and
all three do not. -/
structure Cramped (outer inner gamma : α) : Prop where
  outer_cancels : 0 + outer + -outer = 0
  inner_cancels : 0 + inner + -inner = 0
  attracts_inner : gain gamma inner 0 (0 + inner - inner) < gain gamma inner 1 (0 + outer)
  attracts_outer : gain gamma outer 0 (0 + outer - outer) < gain gamma outer 1 (0 + inner)
  full_first : ¬gain gamma outer 0 (0 + outer - outer) < gain gamma outer 1 (0 + outer + inner)
  full_last : ¬gain gamma outer 0 (0 + outer - outer) < gain gamma outer 1 (0 + inner + outer)
  content : ¬gain gamma inner 1 (0 + inner + outer - inner) < gain gamma inner 1 (0 + outer)

/-- The path `0`, `1`, `far`, at whose last node the second worker begins, among nodes without neighbours. -/
structure Contested (setting : Setting α) (far : Nat) (outer inner : α) : Prop where
  spans : setting.graph.spans setting.concurrency = [⟨0, far⟩, ⟨far, setting.graph.nodeCount⟩]
  apart : 1 < far
  bound : far < setting.graph.nodeCount
  first : others setting.graph 0 = [(1, 1)]
  middle : others setting.graph 1 = [(0, 1), (far, 1)]
  last : others setting.graph far = [(1, 1)]
  rest : ∀ node, node ≠ 0 → node ≠ 1 → node ≠ far → others setting.graph node = []
  outer_first : setting.nodeVolumes.read 0 = outer
  inner : setting.nodeVolumes.read 1 = inner
  outer_last : setting.nodeVolumes.read far = outer

namespace Contested

variable (contested : Contested setting far outer inner)

include contested

theorem pos : 0 < setting.graph.nodeCount := by
  have apart := contested.apart
  exact (Nat.zero_lt_one.trans apart).trans contested.bound

theorem one_lt : 1 < setting.graph.nodeCount := contested.apart.trans contested.bound

theorem rests {state : State α} {node : Nat} (first : node ≠ 0) (middle : node ≠ 1) (last : node ≠ far) :
    target? setting state node = none := target?_of_isolated (contested.rest node first middle last)

variable (lone : Lone setting start) (cramped : Cramped outer inner setting.gamma)

include lone

/-- The first two nodes are both alone, so that the first one leaves it to the second one to join it. -/
theorem first_waits : target? setting start 0 = none := by
  refine target?_leaf_eq_none contested.first fun _ allowed => ?_
  have bars : barred start (start.assignment.of 0) (start.assignment.of 1) = true := by
    rw [lone.of contested.pos, lone.of contested.one_lt, barred, lone.sizeOf contested.pos,
      lone.sizeOf contested.one_lt]
    rfl
  rw [bars] at allowed
  cases allowed

include cramped

theorem middle_joins : target? setting start 1 = some 0 := by
  have home := lone.of contested.one_lt
  have tally : weights setting start.assignment 1 = [(0, 1), (far, 1)] := by
    have distinct : 0 ≠ far := (Nat.zero_lt_one.trans contested.apart).ne
    rw [weights_eq, contested.middle, List.map_cons, List.map_singleton, lone.of contested.pos,
      lone.of contested.bound]
    simp [Tally.ofPairs, Tally.add, distinct]
  have better : stay setting start 1 < join setting start 1 (0, 1) := by
    have away : (weights setting start.assignment 1).get 1 = 0 := by
      rw [tally, Tally.get_cons, if_neg Nat.one_ne_zero, Tally.get_cons, if_neg contested.apart.ne]
      rfl
    rw [stay, join, home, away, lone.volume contested.one_lt, lone.volume contested.pos, contested.inner,
      contested.outer_first]
    exact cramped.attracts_inner
  have taken : consider setting start 1 (1, stay setting start 1) (0, 1) = (0, join setting start 1 (0, 1)) := by
    refine consider_take ?_ ?_ better
    · rw [home]
      exact Nat.zero_ne_one
    · rw [home]
      simp [barred]
  have skipped : consider setting start 1 (0, join setting start 1 (0, 1)) (far, 1) =
      (0, join setting start 1 (0, 1)) := by
    refine consider_skip (.inr ?_)
    rw [home, barred, lone.sizeOf contested.one_lt, lone.sizeOf contested.bound, decide_eq_true contested.apart]
    rfl
  rw [target?, best_eq_foldl, tally, home, List.foldl_cons, List.foldl_cons, List.foldl_nil, taken, skipped]
  rfl

theorem last_joins : target? setting start far = some 1 := by
  have apart := contested.apart
  have home := lone.of contested.bound
  have neighbor := lone.of contested.one_lt
  have joins : target? setting start far = some (start.assignment.of 1) := by
    refine target?_leaf_eq_some contested.last ?_ ?_ ?_
    · rw [home, neighbor]
      exact apart.ne
    · rw [home, neighbor, barred, decide_eq_false apart.not_gt]
      simp
    · rw [home, neighbor, lone.volume contested.bound, lone.volume contested.one_lt, contested.outer_last,
        contested.inner]
      exact cramped.attracts_outer
  rwa [neighbor] at joins

/-! ## The two schedules -/

theorem last_rests_inOrder : target? setting (start.move 1 inner 0) far = none := by
  have apart := contested.apart
  have home : (start.move 1 inner 0).assignment.of far = far := by
    rw [lone.of_move contested.one_lt _ contested.bound, if_neg apart.ne']
  have neighbor : (start.move 1 inner 0).assignment.of 1 = 0 := by
    rw [lone.of_move contested.one_lt _ contested.one_lt, if_pos rfl]
  refine target?_leaf_eq_none contested.last fun _ _ => ?_
  rw [home, neighbor, lone.volume_other contested.one_lt _ contested.bound (by omega) apart.ne',
    lone.volume_joined Nat.zero_lt_one contested.one_lt, contested.outer_last, contested.outer_first]
  exact cramped.full_first

theorem first_rests_raced : target? setting (start.move far outer 1) 0 = none := by
  have apart := contested.apart
  have home : (start.move far outer 1).assignment.of 0 = 0 := by
    rw [lone.of_move contested.bound _ contested.pos, if_neg (by omega)]
  have neighbor : (start.move far outer 1).assignment.of 1 = 1 := by
    rw [lone.of_move contested.bound _ contested.one_lt, if_neg apart.ne]
  refine target?_leaf_eq_none contested.first fun _ _ => ?_
  rw [home, neighbor, lone.volume_other contested.bound _ contested.pos (by omega) (by omega),
    lone.volume_joined apart contested.bound, contested.outer_first, contested.inner]
  exact cramped.full_last

theorem middle_rests_raced : target? setting (start.move far outer 1) 1 = none := by
  have apart := contested.apart
  have home : (start.move far outer 1).assignment.of 1 = 1 := by
    rw [lone.of_move contested.bound _ contested.one_lt, if_neg apart.ne]
  have first : (start.move far outer 1).assignment.of 0 = 0 := by
    rw [lone.of_move contested.bound _ contested.pos, if_neg (by omega)]
  have last : (start.move far outer 1).assignment.of far = 1 := by
    rw [lone.of_move contested.bound _ contested.bound, if_pos rfl]
  have tally : weights setting (start.move far outer 1).assignment 1 = [(0, 1), (1, 1)] := by
    rw [weights_eq, contested.middle, List.map_cons, List.map_singleton, first, last]
    rfl
  refine target?_of_content fun candidate fits => ?_
  have listed := fits.listed
  rw [tally] at listed
  have leaves := fits.leaves
  rw [home] at leaves
  have only : candidate = (0, 1) := by
    rcases List.mem_cons.mp listed with equal | equal
    · exact equal
    · rw [List.mem_singleton.mp equal] at leaves
      exact absurd rfl leaves
  rw [only, stay, join, home, tally, lone.volume_joined apart contested.bound,
    lone.volume_other contested.bound _ contested.pos (by omega) (by omega), contested.inner, contested.outer_first]
  exact cramped.content

variable [Volumes.Steady α] (inOrder : setting.turns 1 = [])

include inOrder

/-- In the order of the nodes, the one in the middle joins the first one. -/
theorem run_inOrder (first : setting.turns 0 = []) :
    run setting start = ⟨start.move 1 inner 0, [1, 0], none⟩ := by
  have order (active : Array Bool) : sweep setting (setting.turns 0) active start =
      walk setting active ([0] ++ 1 :: List.range' 2 (setting.graph.nodeCount - 2)) start := by
    obtain ⟨n, equal⟩ := Nat.exists_eq_add_of_le contested.one_lt
    rw [first, sweep_nil, equal, List.range_eq_range', Nat.add_comm, List.range'_succ, List.range'_succ]
    rfl
  have rests (other : Nat) (above : 1 < other) : target? setting (start.move 1 inner 0) other = none := by
    by_cases last : other = far
    · exact last ▸ contested.last_rests_inOrder lone cramped
    · exact contested.rests (by omega) above.ne' last
  have cancels := cramped.inner_cancels
  rw [← contested.inner] at cancels rests ⊢
  refine run_single order contested.one_lt (fun other member => ?_) (contested.middle_joins lone cramped)
    (fun other member => rests other (List.mem_range'_1.mp member).1) (fun other adjacent apart outside => ?_)
    (lone.drift?_move Nat.zero_lt_one contested.one_lt cancels)
    (lone.occupied_move Nat.zero_lt_one contested.one_lt _) inOrder
  · rw [List.mem_singleton.mp member]
    exact contested.first_waits lone
  · obtain ⟨entry, member, rfl⟩ := adjacent
    have listed := mem_others.mpr ⟨member, apart⟩
    rw [contested.middle] at listed
    rcases List.mem_cons.mp listed with rfl | listed
    · exact absurd (lone.of_move contested.one_lt inner contested.pos) outside
    · rw [List.mem_singleton.mp listed]
      exact rests far contested.apart

/-- Where the second worker is earlier, the last node joins the one in the middle. -/
theorem run_raced (first : setting.turns 0 = [.visit 1]) :
    run setting start = ⟨start.move far outer 1, [1, 0], none⟩ := by
  have apart := contested.apart
  have order (active : Array Bool) : sweep setting (setting.turns 0) active start =
      walk setting active ([] ++ far :: (List.range' 0 far ++
        List.range' (far + 1) (setting.graph.nodeCount - (far + 1)))) start := by
    have tail : List.range' far (setting.graph.nodeCount - far) =
        far :: List.range' (far + 1) (setting.graph.nodeCount - (far + 1)) := by
      rw [← List.range'_succ, ← Nat.sub_sub, Nat.sub_add_cancel]
      exact Nat.sub_pos_of_lt contested.bound
    rw [first, sweep_interleave setting (by simp [Turn.Whole, Turn.worker]), contested.spans]
    simp only [List.map_cons, List.map_nil, Turn.worker, Span.nodes, tail]
    rw [Schedule.interleave_some (by rfl)]
    simp only [Schedule.interleave, List.set_cons_succ, List.set_cons_zero, List.flatten_cons, List.flatten_nil,
      List.append_nil, Nat.sub_zero]
    rfl
  have rests (other : Nat) (lower : other ≠ far) : target? setting (start.move far outer 1) other = none := by
    by_cases first : other = 0
    · exact first ▸ contested.first_rests_raced lone cramped
    · by_cases middle : other = 1
      · exact middle ▸ contested.middle_rests_raced lone cramped
      · exact contested.rests first middle lower
  have cancels := cramped.outer_cancels
  rw [← contested.outer_last] at cancels rests ⊢
  refine run_single order contested.bound (fun _ member => absurd member List.not_mem_nil)
    (contested.last_joins lone cramped) (fun other member => rests other ?_)
    (fun other _ other_ne _ => rests other other_ne)
    (lone.drift?_move apart contested.bound cancels) (lone.occupied_move apart contested.bound _) inOrder
  rcases List.mem_append.mp member with before | after
  · have := List.mem_range'_1.mp before
    omega
  · have := List.mem_range'_1.mp after
    omega

end Contested

end CommunityDetection.LocalMove
