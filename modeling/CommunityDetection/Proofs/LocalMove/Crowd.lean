import CommunityDetection.Proofs.LocalMove.Ascent
import CommunityDetection.Proofs.LocalMove.Leaves
import CommunityDetection.Proofs.LocalMove.Single

/-!
# Two leaves that crowd a community

A worker that is about to visit a leaf decides after six accesses whether the leaf moves (`race_leaf`), and holds to
it whatever the others do meanwhile. So two leaves of one hub may both join its community, although there is
room for one of them only (`Crowded.run_eq`), and the objective may fall (`Crowded.objective_eq`).
-/

namespace CommunityDetection.LocalMove

section Decision

variable {α : Type} [Scalar α] {setting : Setting α} {active : Array Bool} {pass : Pass α}
  {node hub : Nat} {weight : α}

theorem foldlM_compare_of_lt {gamma volume : α} {home community : Nat} (below : community < home) (alone : Bool)
    (best : Nat × α) :
    ([(community, weight)] : Tally α).foldlM (compare gamma volume home alone) best =
      .next (.volumeOf community) fun total =>
        let value := gain gamma volume weight total
        .done (if best.2 < value then (community, value) else best) := by
  have allowed : (bars home alone community : Program α Bool) = .done false := by
    rw [bars, decide_eq_false below.not_gt, Bool.and_false]
    rfl
  rw [List.foldlM_cons, compare, if_neg below.ne, allowed]
  rfl

theorem visiting_leaf (leaf : others setting.graph node = [(hub, weight)]) :
    visiting setting node = .next (.communityOf node) fun home => .next (.communityOf hub) fun community =>
      .next (.volumeOf home) fun total => .next (.sizeOf home) fun size =>
        let volume := setting.nodeVolumes.read node
        let stay := gain setting.gamma volume (Tally.get [(community, weight)] home) (total - volume)
        ([(community, weight)] : Tally α).foldlM (compare setting.gamma volume home (size == 1)) (home, stay) >>=
          fun best => if best.1 ≠ home then moving setting node home best.1 else pure () := by
  unfold visiting moving
  rw [leaf]
  rfl

theorem access_begin (isActive : active.getD node false = true) (rest : List Nat) (pass : Pass α) :
    (⟨none, node :: rest⟩ : Worker α).access setting active pass =
      (⟨some (node, visiting setting node), rest⟩, pass) := by
  simp only [Worker.access, isActive, if_true]

theorem access_next {ρ : Type} (access : Access α ρ) (answered : ρ → Program α Unit) (rest : List Nat)
    (pass : Pass α) :
    (⟨some (node, .next access answered), rest⟩ : Worker α).access setting active pass =
      (⟨some (node, answered (access.run pass).1), rest⟩, (access.run pass).2) := rfl

theorem race_access (turns : List Turn) (first worker : Worker α) (pass : Pass α) :
    race setting active (.access 1 :: turns) [first, worker] pass =
      race setting active turns [first, (worker.access setting active pass).1]
        (worker.access setting active pass).2 := rfl

/-- After six accesses a worker at a leaf that joins its hub's community, which has a smaller id,
is about to move it. -/
theorem race_leaf {first : Worker α} {rest : List Nat} (isActive : active.getD node false = true)
    (leaf : others setting.graph node = [(hub, weight)])
    (below : pass.state.assignment.of hub < pass.state.assignment.of node)
    (better : gain setting.gamma (setting.nodeVolumes.read node) 0
        (pass.state.communityVolumes.read (pass.state.assignment.of node) - setting.nodeVolumes.read node) <
      gain setting.gamma (setting.nodeVolumes.read node) weight
        (pass.state.communityVolumes.read (pass.state.assignment.of hub))) :
    race setting active (List.replicate 6 (.access 1)) [first, ⟨none, node :: rest⟩] pass =
      Worker.finish setting active
        ⟨some (node, moving setting node (pass.state.assignment.of node) (pass.state.assignment.of hub)), rest⟩
        (first.finish setting active pass) := by
  have away : Tally.get [(pass.state.assignment.of hub, weight)] (pass.state.assignment.of node) = 0 := by
    rw [Tally.get_cons, if_neg below.ne']
    rfl
  have kept {β γ ρ : Type} (access : Access α ρ) (answered : ρ → Program α β) (after : β → Program α γ) :
      (Program.next access answered >>= after) = .next access fun answer => answered answer >>= after := rfl
  have chosen {β γ : Type} (result : β) (after : β → Program α γ) :
      (Program.done result >>= after) = after result := rfl
  simp only [List.replicate, race_access, access_begin isActive, visiting_leaf leaf, access_next, Access.run,
    foldlM_compare_of_lt below, kept, chosen]
  simp only [away, better, if_true, ne_eq, below.ne, not_false_eq_true]
  rfl

omit [Scalar α] in
theorem nodes_span_cons {far n : Nat} (bound : far < n) :
    (⟨far, n⟩ : Span).nodes = far :: List.range' (far + 1) (n - (far + 1)) := by
  have tail : n - far = n - (far + 1) + 1 := by omega
  rw [Span.nodes, tail, List.range'_succ]

theorem finish_moving (setting : Setting α) (active : Array Bool) (node community : Nat) (rest : List Nat)
    (pass : Pass α) :
    Worker.finish setting active ⟨some (node, moving setting node (pass.state.assignment.of node) community), rest⟩
        pass =
      let state := pass.state.move node (setting.nodeVolumes.read node) community
      rest.foldl (Pass.visit setting active)
        { state
          moves := pass.moves + 1
          awake := wake setting.graph state.assignment node community pass.awake } := by
  rw [Worker.finish]
  dsimp only
  rw [run_moving]

end Decision

variable {K : Type} [Field K] [LinearOrder K] {setting : Setting K} {start state : State K} {node near far hub : Nat}
  {weight volume total : K}

theorem candidate_leaf (leaf : others setting.graph node = [(hub, weight)])
    (below : state.assignment.of hub < state.assignment.of node) :
    Candidate setting state node (state.assignment.of hub, weight) := by
  refine ⟨?_, below.ne, ?_⟩
  · rw [weights_leaf leaf]
    exact List.mem_singleton_self _
  · rw [barred, decide_eq_false below.not_gt, Bool.and_false, Bool.false_and]

/-- Two lone leaves of a hub, at the second of which a worker begins. There is room for one of them. -/
structure Crowded (setting : Setting K) (start : State K) (near far hub : Nat) (weight volume total : K) : Prop where
  spans : setting.graph.spans setting.concurrency = [⟨0, far⟩, ⟨far, setting.graph.nodeCount⟩]
  ordered : near < far
  bound : far < setting.graph.nodeCount
  near_leaf : others setting.graph near = [(hub, weight)]
  far_leaf : others setting.graph far = [(hub, weight)]
  near_home : start.assignment.of hub < start.assignment.of near
  far_home : start.assignment.of hub < start.assignment.of far
  apart : start.assignment.of near ≠ start.assignment.of far
  near_volume : setting.nodeVolumes.read near = volume
  far_volume : setting.nodeVolumes.read far = volume
  near_alone : start.communityVolumes.read (start.assignment.of near) = volume
  far_alone : start.communityVolumes.read (start.assignment.of far) = volume
  whole : start.communityVolumes.read (start.assignment.of hub) = total
  attracted : 0 < weight - volume * total * setting.gamma

namespace Crowded

variable (crowded : Crowded setting start near far hub weight volume total) (sound : Sound setting start)

include crowded

theorem near_lt : near < setting.graph.nodeCount := crowded.ordered.trans crowded.bound

theorem near_joins : target? setting start near = some (start.assignment.of hub) := by
  have fits := candidate_leaf crowded.near_leaf crowded.near_home
  refine target?_leaf_eq_some crowded.near_leaf fits.leaves fits.allowed ?_
  rw [crowded.near_volume, crowded.near_alone, crowded.whole, gain, gain, sub_self, mul_zero, zero_mul, sub_zero]
  exact crowded.attracted

theorem finish_near (before : ∀ node < near, target? setting start node = none)
    (between : ∀ node, near < node → node < far →
      target? setting (start.move near volume (start.assignment.of hub)) node = none) :
    (Worker.on ⟨0, far⟩).finish setting (Array.replicate setting.graph.nodeCount true) (unvisited setting start) =
      { state := start.move near volume (start.assignment.of hub)
        moves := 1
        awake := wake setting.graph (start.move near volume (start.assignment.of hub)).assignment near
          (start.assignment.of hub) (Array.replicate setting.graph.nodeCount false) } := by
  have split : (⟨0, far⟩ : Span).nodes =
      List.range' 0 near ++ near :: List.range' (near + 1) (far - (near + 1)) := by
    have cut : far - 0 = near + (far - (near + 1) + 1) := by
      have := crowded.ordered
      omega
    rw [Span.nodes, cut, ← List.range'_succ, ← List.range'_append_1, Nat.zero_add]
  have isActive : (Array.replicate setting.graph.nodeCount true).getD near false = true := by simp [crowded.near_lt]
  rw [Worker.on, Worker.finish, split]
  refine (visits_single (unvisited setting start) (fun node member _ => before node ?_) isActive crowded.near_joins
    fun node member _ => ?_).trans ?_
  · have := List.mem_range'_1.mp member
    omega
  · have := List.mem_range'_1.mp member
    rw [crowded.near_volume]
    exact between node (by omega) (by omega)
  · rw [crowded.near_volume]
    rfl

include sound

theorem of_near (node : Nat) : (start.move near volume (start.assignment.of hub)).assignment.of node =
    if node = near then start.assignment.of hub else start.assignment.of node :=
  State.of_move (crowded.near_lt.trans_eq sound.within.size.symm) _ _ _

theorem far_home_near : (start.move near volume (start.assignment.of hub)).assignment.of far =
    start.assignment.of far := by
  rw [crowded.of_near sound, if_neg crowded.ordered.ne']

theorem hub_home_near : (start.move near volume (start.assignment.of hub)).assignment.of hub =
    start.assignment.of hub := by
  rw [crowded.of_near sound]
  exact ite_self _

theorem volume_near (community : Nat) :
    (start.move near volume (start.assignment.of hub)).communityVolumes.read community =
      start.communityVolumes.read community + (if start.assignment.of near = community then -volume else 0) +
        if start.assignment.of hub = community then volume else 0 := by
  have sizes := sound.volumes.size_communities
  have home : start.assignment.of near < start.communityVolumes.size :=
    (sound.within.bounded near crowded.near_lt).trans_eq sizes.symm
  change ((start.communityVolumes.add (start.assignment.of near) (-volume)).add (start.assignment.of hub)
    volume).read community = _
  rw [Cells.read_add_exact (by rw [Cells.size_add]; exact crowded.near_home.trans home), Cells.read_add_exact home]

theorem whole_near : (start.move near volume (start.assignment.of hub)).communityVolumes.read
    (start.assignment.of hub) = total + volume := by
  rw [crowded.volume_near sound, if_neg crowded.near_home.ne', if_pos rfl, crowded.whole, add_zero]

theorem far_alone_near : (start.move near volume (start.assignment.of hub)).communityVolumes.read
    (start.assignment.of far) = volume := by
  rw [crowded.volume_near sound, if_neg crowded.apart, if_neg crowded.far_home.ne, crowded.far_alone,
    add_zero, add_zero]

theorem far_fits : Candidate setting (start.move near volume (start.assignment.of hub)) far
    (start.assignment.of hub, weight) := by
  have below : (start.move near volume (start.assignment.of hub)).assignment.of hub <
      (start.move near volume (start.assignment.of hub)).assignment.of far := by
    rw [crowded.hub_home_near sound, crowded.far_home_near sound]
    exact crowded.far_home
  have fits := candidate_leaf crowded.far_leaf below
  rwa [crowded.hub_home_near sound] at fits

/-! ## The pass -/

/-- Where the second worker has decided on its leaf before the first one moves its own, both leaves join the hub. -/
theorem sweep_eq (before : ∀ node < near, target? setting start node = none)
    (between : ∀ node, near < node → node < far →
      target? setting (start.move near volume (start.assignment.of hub)) node = none)
    (after : ∀ node, far < node → target? setting
      ((start.move near volume (start.assignment.of hub)).move far volume (start.assignment.of hub)) node = none) :
    sweep setting (List.replicate 6 (.access 1)) (Array.replicate setting.graph.nodeCount true) start =
      { state := (start.move near volume (start.assignment.of hub)).move far volume (start.assignment.of hub)
        moves := 2
        awake := wake setting.graph
          ((start.move near volume (start.assignment.of hub)).move far volume (start.assignment.of hub)).assignment
          far (start.assignment.of hub)
          (wake setting.graph (start.move near volume (start.assignment.of hub)).assignment near
            (start.assignment.of hub) (Array.replicate setting.graph.nodeCount false)) } := by
  have isActive : (Array.replicate setting.graph.nodeCount true).getD far false = true := by simp [crowded.bound]
  have better : gain setting.gamma (setting.nodeVolumes.read far) 0
        (start.communityVolumes.read (start.assignment.of far) - setting.nodeVolumes.read far) <
      gain setting.gamma (setting.nodeVolumes.read far) weight
        (start.communityVolumes.read (start.assignment.of hub)) := by
    rw [crowded.far_volume, crowded.far_alone, crowded.whole, gain, gain, sub_self, mul_zero, zero_mul, sub_zero]
    exact crowded.attracted
  let rest := List.range' (far + 1) (setting.graph.nodeCount - (far + 1))
  -- The first worker moves `near` while the second one is about to move `far`, with what it read before.
  have decided : race setting (Array.replicate setting.graph.nodeCount true) (List.replicate 6 (.access 1))
      [Worker.on ⟨0, far⟩, ⟨none, far :: rest⟩] (unvisited setting start) = _ :=
    race_leaf isActive crowded.far_leaf crowded.far_home better
  have finished := finish_moving setting (Array.replicate setting.graph.nodeCount true) far (start.assignment.of hub)
    rest ⟨start.move near volume (start.assignment.of hub), 1, wake setting.graph
      (start.move near volume (start.assignment.of hub)).assignment near (start.assignment.of hub)
      (Array.replicate setting.graph.nodeCount false)⟩
  rw [crowded.far_home_near sound, crowded.far_volume] at finished
  rw [sweep, crowded.spans, List.map_cons, List.map_singleton]
  show race setting _ _ [Worker.on ⟨0, far⟩, ⟨none, (⟨far, setting.graph.nodeCount⟩ : Span).nodes⟩] _ = _
  rw [nodes_span_cons crowded.bound]
  refine decided.trans ?_
  rw [crowded.finish_near before between]
  refine finished.trans (visits_eq_self fun node member _ => after node ?_)
  have := List.mem_range'_1.mp member
  omega

/-! ## The objective -/

variable (closed : setting.graph.Closed)

include closed

theorem sound_near : Sound setting (start.move near volume (start.assignment.of hub)) := by
  have moved := sound.move closed crowded.near_lt (candidate_leaf crowded.near_leaf crowded.near_home)
  rwa [crowded.near_volume] at moved

theorem sound_both : Sound setting ((start.move near volume (start.assignment.of hub)).move far volume
    (start.assignment.of hub)) := by
  have moved := (crowded.sound_near sound closed).move closed crowded.bound (crowded.far_fits sound)
  rwa [crowded.far_volume] at moved

/-- The second of the leaves finds the volume of the first one in the community. -/
theorem objective_eq (symmetric : setting.graph.Symmetric) :
    objective setting ((start.move near volume (start.assignment.of hub)).move far volume (start.assignment.of hub)) =
      objective setting start + 2 * (weight - volume * total * setting.gamma) +
        2 * (weight - volume * (total + volume) * setting.gamma) := by
  have first := objective_move closed symmetric sound crowded.near_lt
    (candidate_leaf crowded.near_leaf crowded.near_home)
  have second := objective_move closed symmetric (crowded.sound_near sound closed) crowded.bound
    (crowded.far_fits sound)
  have apart := crowded.far_home.ne
  rw [stay_leaf crowded.near_leaf crowded.near_home.ne, join, crowded.near_volume, crowded.near_alone,
    crowded.whole] at first
  rw [stay_leaf crowded.far_leaf (by rwa [crowded.hub_home_near sound, crowded.far_home_near sound]), join,
    crowded.far_home_near sound, crowded.far_volume, crowded.far_alone_near sound, crowded.whole_near sound] at second
  rw [second, first]
  simp only [gain]
  ring

/-! ## The phase -/

theorem of_both (node : Nat) :
    ((start.move near volume (start.assignment.of hub)).move far volume (start.assignment.of hub)).assignment.of node =
      if node = far then start.assignment.of hub
      else (start.move near volume (start.assignment.of hub)).assignment.of node :=
  State.of_move (crowded.bound.trans_eq (crowded.sound_near sound closed).within.size.symm) _ _ _

theorem hub_home_both :
    ((start.move near volume (start.assignment.of hub)).move far volume (start.assignment.of hub)).assignment.of hub =
      start.assignment.of hub := by
  rw [crowded.of_both sound closed, crowded.hub_home_near sound]
  exact ite_self _

theorem occupied_lt (counted : Counted setting.graph.nodeCount start) :
    ((start.move near volume (start.assignment.of hub)).move far volume (start.assignment.of hub)).occupied <
      setting.graph.nodeCount := by
  have inside := crowded.near_home.trans (sound.within.bounded near crowded.near_lt)
  have first := counted.move crowded.near_lt inside crowded.near_home.ne volume
  have second := first.move crowded.bound inside (crowded.far_fits sound).leaves volume
  refine second.occupied_lt crowded.near_lt crowded.bound crowded.ordered.ne ?_
  rw [crowded.of_both sound closed, crowded.of_both sound closed, if_neg crowded.ordered.ne, if_pos rfl,
    crowded.of_near sound, if_pos rfl]

/-- The hub is the only neighbour of the leaves, and they have joined it. -/
theorem asleep {other : Nat} (bounded : other < setting.graph.nodeCount) :
    (wake setting.graph
      ((start.move near volume (start.assignment.of hub)).move far volume (start.assignment.of hub)).assignment
      far (start.assignment.of hub)
      (wake setting.graph (start.move near volume (start.assignment.of hub)).assignment near
        (start.assignment.of hub) (Array.replicate setting.graph.nodeCount false))).getD other false ≠ true := by
  intro isAwake
  have blank : (Array.replicate setting.graph.nodeCount false).getD other false = false := getD_replicate _ _ _
  have sized : (Array.replicate setting.graph.nodeCount false).size = setting.graph.nodeCount := Array.size_replicate
  rcases (awake_wake (by rwa [size_wake, sized])).mp isAwake with byNear | ⟨adjacent, apart, outside⟩
  · rcases (awake_wake (bounded.trans_eq sized.symm)).mp byNear with early | ⟨adjacent, apart, outside⟩
    · exact absurd (blank.symm.trans early) (by decide)
    · rw [eq_of_adjacent_leaf crowded.near_leaf adjacent apart] at outside
      exact outside (crowded.hub_home_near sound)
  · rw [eq_of_adjacent_leaf crowded.far_leaf adjacent apart] at outside
    exact outside (crowded.hub_home_both sound closed)

theorem run_eq [IsStrictOrderedRing K] (counted : Counted setting.graph.nodeCount start)
    (before : ∀ node < near, target? setting start node = none)
    (between : ∀ node, near < node → node < far →
      target? setting (start.move near volume (start.assignment.of hub)) node = none)
    (after : ∀ node, far < node → target? setting
      ((start.move near volume (start.assignment.of hub)).move far volume (start.assignment.of hub)) node = none)
    (raced : setting.turns 0 = List.replicate 6 (.access 1)) (inOrder : setting.turns 1 = []) :
    run setting start =
      ⟨(start.move near volume (start.assignment.of hub)).move far volume (start.assignment.of hub),
        [2, 0], none⟩ := by
  have swept := crowded.sweep_eq sound before between after
  rw [← raced] at swept
  refine run_of_pass swept (Nat.succ_ne_zero 1) ?_ (crowded.occupied_lt sound closed counted).ne inOrder
    fun node bounded isAwake => absurd isAwake (crowded.asleep sound closed bounded)
  have both := crowded.sound_both sound closed
  exact both.volumes.drift?_eq_none both.within.bounded

end Crowded

end CommunityDetection.LocalMove
