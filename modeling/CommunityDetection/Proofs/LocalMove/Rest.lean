import CommunityDetection.Proofs.Bounds
import CommunityDetection.Proofs.LocalMove.Counts
import CommunityDetection.Proofs.LocalMove.Ending
import CommunityDetection.Proofs.LocalMove.Walks

/-!
# What the passes leave at rest

Here visits are made one after another. A pass visits the nodes that the one before woke. So a node that the
last pass left out was visited earlier, and since then it kept its community and each of its neighbours stayed
or moved into that community (`Visited`, carried by `Attended`). Such a node need not be at rest: volumes
changed without waking it, and a candidate that was barred may no longer be. `ends_at_rest` says that nothing
else keeps it from rest, and bounds what it could still gain by the change of the volumes.
-/

namespace CommunityDetection.LocalMove
open Finset

section Visits

variable {α : Type} [Scalar α] {setting : Setting α} {start state before : State α} {active : Array Bool}
  {node other community : Nat} {visited left earlier : List Nat}

/-! ## Since the last visit -/

/-- A visit to an active node after some others in a pass, since which the node kept its community and its
neighbours stayed or moved into that community. -/
structure Visited (setting : Setting α) (start : State α) (node : Nat) (active : Array Bool)
    (before : State α) (earlier : List Nat) (state : State α) : Prop where
  walked : Walked setting start active before
  listed : ∃ later, (earlier ++ node :: later).Perm (List.range setting.graph.nodeCount)
  isActive : active.getD node false = true
  since : ∃ count, Trail setting (walk setting active (earlier ++ [node]) before).state count state
  home : state.assignment.of node = (walk setting active (earlier ++ [node]) before).state.assignment.of node
  neighbors : ∀ v, setting.graph.Adjacent node v →
    state.assignment.of v = (walk setting active (earlier ++ [node]) before).state.assignment.of v ∨
      state.assignment.of v = state.assignment.of node

/-- A node is still to be visited in this pass, or awake for the next one, or nothing happened around it
since a visit. -/
def Attended (setting : Setting α) (start : State α) (active : Array Bool) (before : State α)
    (visited left : List Nat) (node : Nat) : Prop :=
  (node ∈ left ∧ active.getD node false = true) ∨
    (walk setting active visited before).awake.getD node false = true ∨
    ∃ last first earlier, Visited setting start node last first earlier (walk setting active visited before).state

theorem visited_self (walked : Walked setting start active before) (isActive : active.getD node false = true)
    (listed : (earlier ++ node :: left).Perm (List.range setting.graph.nodeCount)) :
    Visited setting start node active before earlier (walk setting active (earlier ++ [node]) before).state :=
  ⟨walked, ⟨left, listed⟩, isActive, ⟨0, .refl⟩, rfl, fun _ _ => .inl rfl⟩

theorem Visited.move (visited : Visited setting start node active before earlier state)
    (bound : other < setting.graph.nodeCount) (listed : other < state.assignment.size)
    (moves : target? setting state other = some community) (apart : other ≠ node)
    (unseen : setting.graph.Adjacent node other → state.assignment.of node = community) :
    Visited setting start node active before earlier
      (state.move other (setting.nodeVolumes.read other) community) := by
  obtain ⟨count, trail⟩ := visited.since
  have kept (v : Nat) (ne : other ≠ v) :
      (state.assignment.assign other community).of v = state.assignment.of v :=
    Assignment.of_assign_of_ne _ ne community
  refine ⟨visited.walked, visited.listed, visited.isActive, ⟨_, trail.move bound moves⟩,
    (kept node apart).trans visited.home, fun v adjacent => ?_⟩
  by_cases same : other = v
  · subst same
    right
    exact (Assignment.of_assign_self listed community).trans
      ((unseen adjacent).symm.trans (kept node apart).symm)
  · refine (visited.neighbors v adjacent).imp (kept v same).trans fun joined => ?_
    exact (kept v same).trans (joined.trans (kept node apart).symm)

theorem Attended.skip (attended : Attended setting start active before visited (other :: left) node)
    (same : walk setting active (visited ++ [other]) before = walk setting active visited before)
    (passes : other = node → ¬active.getD node false = true) :
    Attended setting start active before (visited ++ [other]) left node := by
  unfold Attended
  rw [same]
  refine attended.imp_left fun waits => ⟨(List.mem_cons.mp waits.1).resolve_left fun here => ?_, waits.2⟩
  exact passes here.symm waits.2

theorem Attended.move (comm : ∀ u v, setting.graph.Adjacent u v → setting.graph.Adjacent v u)
    (size : start.assignment.size = setting.graph.nodeCount) (walked : Walked setting start active before)
    (bound : node < setting.graph.nodeCount) (apart : other ≠ node)
    (isActive : active.getD other false = true)
    (moves : target? setting (walk setting active visited before).state other = some community)
    (attended : Attended setting start active before visited (other :: left) node) :
    Attended setting start active before (visited ++ [other]) left node := by
  have bounded : node < (walk setting active visited before).awake.size :=
    bound.trans_eq (underway_walk walked.trail.1 visited before).size.symm
  unfold Attended
  rw [walk_concat, visit_eq_move isActive moves]
  rcases attended with ⟨waits, isOwn⟩ | wakes | ⟨last, first, earlier, since⟩
  · exact .inl ⟨(List.mem_cons.mp waits).resolve_left apart.symm, isOwn⟩
  · exact .inr (.inl ((awake_wake bounded).mpr (.inl wakes)))
  · -- Either the move is none of the node's concern, or it wakes the node.
    by_cases seen : setting.graph.Adjacent node other →
      (walk setting active visited before).state.assignment.of node = community
    · obtain ⟨_, trail⟩ := walked.exists_trail visited
      have inside := lt_of_active walked.trail.1 isActive
      have listed : other < (walk setting active visited before).state.assignment.size := by
        rwa [trail.size, size]
      exact .inr (.inr ⟨last, first, earlier, since.move inside listed moves apart seen⟩)
    · rw [Classical.not_imp] at seen
      refine .inr (.inl ((awake_wake bounded).mpr (.inr ⟨comm _ _ seen.1, apart.symm, ?_⟩)))
      rw [State.move, Assignment.of_assign_of_ne _ apart]
      exact seen.2

theorem Attended.visit (comm : ∀ u v, setting.graph.Adjacent u v → setting.graph.Adjacent v u)
    (size : start.assignment.size = setting.graph.nodeCount) (walked : Walked setting start active before)
    (listed : (visited ++ other :: left).Perm (List.range setting.graph.nodeCount))
    (bound : node < setting.graph.nodeCount)
    (attended : Attended setting start active before visited (other :: left) node) :
    Attended setting start active before (visited ++ [other]) left node := by
  by_cases isActive : active.getD other false = true
  · by_cases same : other = node
    · subst same
      exact .inr (.inr ⟨active, before, visited, visited_self walked isActive listed⟩)
    · cases moves : target? setting (walk setting active visited before).state other with
      | none =>
        refine attended.skip ?_ fun here => absurd here same
        rw [walk_concat, visit_eq_self fun _ => moves]
      | some community => exact attended.move comm size walked bound same isActive moves
  · refine attended.skip ?_ fun here active => isActive (here ▸ active)
    rw [walk_concat, visit_eq_self fun active => absurd active isActive]

theorem attended_walk (comm : ∀ u v, setting.graph.Adjacent u v → setting.graph.Adjacent v u)
    (size : start.assignment.size = setting.graph.nodeCount) (walked : Walked setting start active before)
    (listed : (visited ++ left).Perm (List.range setting.graph.nodeCount))
    (bound : node < setting.graph.nodeCount)
    (attended : Attended setting start active before visited left node) :
    Attended setting start active before (visited ++ left) [] node := by
  induction left generalizing visited with
  | nil => rwa [List.append_nil]
  | cons other left ih =>
    rw [List.append_cons] at listed ⊢
    exact ih listed (attended.visit comm size walked (by rwa [List.append_cons]) bound)

theorem Walked.attended (comm : ∀ u v, setting.graph.Adjacent u v → setting.graph.Adjacent v u)
    (size : start.assignment.size = setting.graph.nodeCount) (walked : Walked setting start active state)
    (bound : node < setting.graph.nodeCount) :
    active.getD node false = true ∨
      ∃ last first earlier, Visited setting start node last first earlier state := by
  induction walked with
  | start => exact .inl (by simp [bound])
  | @pass active before order all walked ih =>
    have opens : Attended setting start active before [] order node :=
      ih.imp (⟨all.mem_iff.mpr (List.mem_range.mpr bound), ·⟩) .inr
    have listed : ([] ++ order).Perm (List.range setting.graph.nodeCount) := all
    exact (attended_walk comm size walked listed bound opens).resolve_left fun waits => List.not_mem_nil waits.1

end Visits

section Gains

variable {K : Type} [Field K] [LinearOrder K] {setting : Setting K} {state rested : State K}
  {active : Array Bool} {pass : Pass K} {node neighbor community : Nat}

/-! ## What a visit leaves open -/

def pull (setting : Setting K) (state : State K) (node community : Nat) : K :=
  attraction setting.graph.nodeCount setting.graph.weight setting.nodeVolumes.read setting.gamma
    state.assignment.of node community

theorem best_eq_pull (closed : setting.graph.Closed) (sound : Sound setting state)
    (bound : node < setting.graph.nodeCount) :
    (best setting state node).2 = pull setting state node (best setting state node).1 := by
  rcases best_cases setting state node with home | ⟨candidate, fits, reached, -⟩
  · rw [home]
    exact stay_eq_attraction closed sound bound
  · rw [reached]
    exact join_eq_attraction closed sound fits

theorem stay_le_best (setting : Setting K) (state : State K) (node : Nat) :
    stay setting state node ≤ (best setting state node).2 := by
  rcases best_cases setting state node with home | ⟨candidate, -, reached, climbs⟩
  · rw [home]
  · rw [reached]
    rw [Relation.transGen_eq_self] at climbs
    exact climbs.le

theorem of_visit (isActive : active.getD node false = true) (listed : node < pass.state.assignment.size) :
    (pass.visit setting active node).state.assignment.of =
      Function.update pass.state.assignment.of node (best setting pass.state node).1 := by
  by_cases home : (best setting pass.state node).1 = pass.state.assignment.of node
  · rw [home, Function.update_eq_self, visit_eq_self fun _ => if_pos home]
  · rw [visit_eq_move isActive (if_neg home)]
    exact Assignment.of_assign listed _

theorem pull_visit (closed : setting.graph.Closed) (sound : Sound setting pass.state)
    (bound : node < setting.graph.nodeCount) (isActive : active.getD node false = true)
    (adjacent : setting.graph.Adjacent node neighbor) (other : neighbor ≠ node) :
    let rested := (pass.visit setting active node).state
    barred pass.state (pass.state.assignment.of node) (rested.assignment.of neighbor) = true ∨
      pull setting rested node (rested.assignment.of neighbor) ≤
        pull setting rested node (rested.assignment.of node) := by
  intro rested
  have visited : rested.assignment.of =
      Function.update pass.state.assignment.of node (best setting pass.state node).1 :=
    of_visit isActive (bound.trans_eq sound.within.size.symm)
  have pulls (target : Nat) : pull setting rested node target = pull setting pass.state node target :=
    attraction_congr target fun v ne => by rw [visited, Function.update_of_ne ne]
  rw [pulls, pulls, visited, Function.update_self, Function.update_of_ne other,
    ← best_eq_pull closed sound bound]
  by_cases home : pass.state.assignment.of neighbor = pass.state.assignment.of node
  · right
    rw [home, pull, ← stay_eq_attraction closed sound bound]
    exact stay_le_best setting pass.state node
  · refine (Bool.eq_false_or_eq_true _).imp_right fun allowed => ?_
    obtain ⟨weight, fits⟩ := exists_candidate adjacent other home allowed
    exact (join_eq_attraction closed sound fits).symm.trans_le (le_best fits)

/-! ## What changed since -/

def share (setting : Setting K) (state : State K) (node community : Nat) : K :=
  ∑ v ∈ (range setting.graph.nodeCount).erase node with state.assignment.of v = community,
    setting.graph.weight node v

theorem pull_of_ne (sound : Sound setting state) (inside : community < setting.graph.nodeCount)
    (leaves : community ≠ state.assignment.of node) :
    pull setting state node community = share setting state node community -
      setting.gamma * setting.nodeVolumes.read node * state.communityVolumes.read community := by
  rw [pull, attraction_eq, ← sound.volume_of_ne inside leaves, share]

theorem pull_home (sound : Sound setting state) (bound : node < setting.graph.nodeCount) :
    pull setting state node (state.assignment.of node) =
      share setting state node (state.assignment.of node) -
        setting.gamma * setting.nodeVolumes.read node *
          (state.communityVolumes.read (state.assignment.of node) - setting.nodeVolumes.read node) := by
  rw [pull, attraction_eq, ← sound.volume_of_home bound, share]

variable [IsStrictOrderedRing K]

theorem share_le_share (nonneg : ∀ u v, 0 ≤ setting.graph.weight u v)
    (keeps : ∀ v, setting.graph.Adjacent node v → state.assignment.of v = community →
      rested.assignment.of v = community) :
    share setting state node community ≤ share setting rested node community := by
  unfold share
  rw [sum_filter, sum_filter]
  refine sum_le_sum fun v _ => ?_
  by_cases adjacent : setting.graph.Adjacent node v
  · by_cases member : state.assignment.of v = community
    · rw [if_pos member, if_pos (keeps v adjacent member)]
    · rw [if_neg member]
      split
      · exact nonneg node v
      · exact le_rfl
  · rw [Graph.weight_of_not_adjacent adjacent, ite_self, ite_self]

/-- By how much the own community of a node has grown beyond another one, in volume, since an earlier state. -/
def outgrowth (rested state : State K) (node community : Nat) : K :=
  (state.communityVolumes.read (state.assignment.of node) -
      rested.communityVolumes.read (state.assignment.of node)) +
    (rested.communityVolumes.read community - state.communityVolumes.read community)

theorem pull_sub_le (nonneg : ∀ u v, 0 ≤ setting.graph.weight u v) (sound : Sound setting state)
    (soundRested : Sound setting rested) (bound : node < setting.graph.nodeCount)
    (home : state.assignment.of node = rested.assignment.of node)
    (neighbors : ∀ v, setting.graph.Adjacent node v →
      state.assignment.of v = rested.assignment.of v ∨ state.assignment.of v = state.assignment.of node)
    (inside : community < setting.graph.nodeCount) (leaves : community ≠ state.assignment.of node) :
    pull setting state node community - pull setting state node (state.assignment.of node) ≤
      pull setting rested node community - pull setting rested node (rested.assignment.of node) +
        setting.gamma * setting.nodeVolumes.read node * outgrowth rested state node community := by
  -- Neighbours only moved into the own community, so only that one has gained weight.
  have lost : share setting state node community ≤ share setting rested node community := by
    refine share_le_share nonneg fun v adjacent member => ?_
    have stayed := (neighbors v adjacent).resolve_right fun joined => leaves (member.symm.trans joined)
    exact stayed.symm.trans member
  have won : share setting rested node (state.assignment.of node) ≤
      share setting state node (state.assignment.of node) :=
    share_le_share nonneg fun v adjacent member => (neighbors v adjacent).elim (·.trans member) id
  rw [pull_of_ne sound inside leaves, pull_home sound bound, pull_of_ne soundRested inside (home ▸ leaves),
    pull_home soundRested bound, ← home, outgrowth]
  linarith

/-! ## At the end -/

/-- Why a node did not move into a community since the visit that took `seen` to `rested`: it was barred from
it then, or what it gains now is no more than the change of volumes since. -/
def Missed (setting : Setting K) (seen rested state : State K) (node community : Nat) : Prop :=
  barred seen (seen.assignment.of node) community = true ∨
    (best setting state node).2 - stay setting state node ≤
      setting.gamma * setting.nodeVolumes.read node * outgrowth rested state node community

variable {start before : State K}

theorem Visited.missed {earlier : List Nat} (visited : Visited setting start node active before earlier state)
    (closed : setting.graph.Closed) (nonneg : ∀ u v, 0 ≤ setting.graph.weight u v)
    (sound : Sound setting start) (bound : node < setting.graph.nodeCount)
    (moves : target? setting state node = some community) :
    Missed setting (walk setting active earlier before).state
      (walk setting active (earlier ++ [node]) before).state state node community := by
  obtain ⟨_, toSeen⟩ := visited.walked.exists_trail earlier
  obtain ⟨_, toRested⟩ := visited.walked.exists_trail (earlier ++ [node])
  obtain ⟨_, since⟩ := visited.since
  have soundNow := (toRested.trans since).sound closed sound
  obtain ⟨weight, fits, reached, -⟩ := target?_eq_some moves
  obtain ⟨v, other, adjacent, same⟩ := fits.neighbor
  -- A member of the community among the neighbours has not moved since.
  have stayed : (walk setting active (earlier ++ [node]) before).state.assignment.of v = community :=
    ((visited.neighbors v adjacent).resolve_right fun joined => fits.leaves (same.symm.trans joined)).symm.trans
      same
  have settled := pull_visit closed (toSeen.sound closed sound) bound visited.isActive adjacent other
  rw [← walk_concat] at settled
  dsimp only at settled
  rw [stayed] at settled
  refine settled.imp_right fun rests => ?_
  have changed := pull_sub_le nonneg soundNow (toRested.sound closed sound) bound visited.home
    visited.neighbors (fits.inside closed soundNow) fits.leaves
  rw [reached, join_eq_attraction closed soundNow fits, stay_eq_attraction closed soundNow bound]
  exact changed.trans (by linarith)

/-- Let the visits be made one after another, as those of a single worker always are, from any start with right
volumes and whatever the resolution. Then the passes end without a fault, and the nodes that the last pass
visited are at rest. Every node was visited, and since its last visit it kept its community while each of its
neighbours stayed or moved into that community. So a node that could still move was left out of the last pass,
and the community that it would move into was barred to it at that visit, or it gains no more than what the
volumes of the two communities changed since, scaled by the resolution and its own volume. -/
theorem ends_at_rest (sequential : setting.Sequential) (closed : setting.graph.Closed)
    (comm : ∀ u v, setting.graph.Adjacent u v → setting.graph.Adjacent v u)
    (symmetric : setting.graph.Symmetric) (nonneg : ∀ u v, 0 ≤ setting.graph.weight u v)
    {assignment : Assignment} {volumes : Cells K} {tracked : Nat}
    (starts : LocalMove.start setting.graph.nodeCount assignment volumes tracked = .ok start)
    (size : assignment.size = setting.graph.nodeCount)
    (sums : Volumes.Sound ⟨setting.nodeVolumes, volumes⟩ assignment setting.graph.nodeCount) :
    let report := run setting start
    report.failure? = none ∧ ∃ pass last, Walked setting start last report.state ∧
      (sweep setting (setting.turns pass) last report.state).moves = 0 ∧
      ∀ node < setting.graph.nodeCount,
        (last.getD node false = true → target? setting report.state node = none) ∧
        ∃ active before earlier, Visited setting start node active before earlier report.state ∧
          ∀ community, target? setting report.state node = some community →
            Missed setting (walk setting active earlier before).state
              (walk setting active (earlier ++ [node]) before).state report.state node community := by
  dsimp only
  have counted := counted_of_start starts size
  have within := within_of_start starts size
  obtain ⟨rfl, rfl⟩ := start_ok starts
  have sound : Sound setting start := ⟨within, sums⟩
  have settled := run_settles sequential closed symmetric sound
  obtain ⟨pass, last, before, walked, ended, done⟩ := run_ends sequential settled
  obtain ⟨fits, count, trail⟩ := walked.trail
  have underway := underway_sweep sequential pass fits before
  have still : (sweep setting (setting.turns pass) last before).moves = 0 := by
    by_contra moved
    have fewer := (trail.trans underway.trail).occupied_lt closed counted (by omega)
    exact fewer.ne (done.resolve_left moved)
  obtain ⟨unchanged, rests⟩ := sweep_quiet still
  have same : (run setting start).state = before := ended.trans (congrArg Pass.state unchanged)
  rw [same]
  refine ⟨settled, pass, last, walked, still, fun node bound => ⟨rests node bound, ?_⟩⟩
  have visited : ∃ active first earlier, Visited setting start node active first earlier before := by
    rcases walked.attended comm size bound with isActive | since
    · -- The last pass visited the node, whatever the order of its visits.
      have listed : ([] ++ node :: (List.range setting.graph.nodeCount).erase node).Perm
          (List.range setting.graph.nodeCount) := (List.perm_cons_erase (List.mem_range.mpr bound)).symm
      have visited := visited_self walked isActive listed
      rw [walk_of_rest fits rests] at visited
      exact ⟨last, before, [], visited⟩
    · exact since
  obtain ⟨active, first, earlier, visited⟩ := visited
  exact ⟨active, first, earlier, visited, fun community moves => visited.missed closed nonneg sound bound moves⟩

end Gains

/-! ## Nodes that are not at rest -/

def shortPath : Graph ℚ where
  orientation := .undirected
  weighted := true
  rows := Graph.rowsOf 3 .undirected [⟨0, 1, 1⟩, ⟨1, 2, 2⟩]
  translation := none
  properties := []

theorem fromEdges_shortPath : shortPath.FromEdges := Graph.fromEdges_of_sound (by decide +kernel)

/-- The middle node was barred from the community that it would move into now. -/
theorem ends_at_rest_shortPath :
    let volumes := Volumes.initial shortPath (.singletons 3) true 1
    let setting : Setting ℚ := { graph := shortPath, nodeVolumes := volumes.nodes, gamma := 1 / 4, concurrency := 1 }
    ∃ start, LocalMove.start 3 (.singletons 3) volumes.communities 3 = .ok start ∧
      target? setting (run setting start).state 1 = some 2 ∧
      ∃ active before earlier, Visited setting start 1 active before earlier (run setting start).state ∧
        Missed setting (walk setting active earlier before).state
          (walk setting active (earlier ++ [1]) before).state (run setting start).state 1 2 := by
  intro volumes setting
  have nodes : setting.graph.nodeCount = 3 := by decide +kernel
  have starts : LocalMove.start setting.graph.nodeCount (.singletons 3) volumes.communities 3 =
      .ok ⟨.singletons 3, volumes.communities, #[1, 1, 1], 3⟩ := by
    rw [nodes]
    rfl
  have sequential : setting.Sequential := .inr fun _ _ => nofun
  obtain ⟨-, -, last, -, -, ends⟩ := ends_at_rest sequential fromEdges_shortPath.closed
    (fun _ _ => fromEdges_shortPath.adjacent_comm) fromEdges_shortPath.symmetric
    fromEdges_shortPath.weight_nonneg starts (by rw [nodes]; rfl)
    (Volumes.sound_initial shortPath true 1 [] (by decide +kernel))
  obtain ⟨-, active, before, earlier, visited, missed⟩ := ends 1 (by rw [nodes]; decide)
  have moves : target? setting
      (run setting ⟨.singletons 3, volumes.communities, #[1, 1, 1], 3⟩).state 1 = some 2 := by
    decide +kernel
  exact ⟨_, rfl, moves, active, before, earlier, visited, missed 2 moves⟩

def longPath : Graph ℚ where
  orientation := .undirected
  weighted := true
  rows := Graph.rowsOf 6 .undirected [⟨0, 2, 1⟩, ⟨0, 3, 1⟩, ⟨1, 2, 1⟩, ⟨1, 4, 1⟩, ⟨3, 5, 1⟩]
  translation := none
  properties := []

/-- The second pass moves no node. But after node `2` moved, nodes that are not its neighbours made its new
community grow, so that it would move on by now. -/
theorem exists_restless :
    let volumes := Volumes.initial longPath (.singletons 6) true 1
    let setting : Setting ℚ := { graph := longPath, nodeVolumes := volumes.nodes, gamma := 1 / 10, concurrency := 1 }
    longPath.FromEdges ∧ Volumes.Sound ⟨setting.nodeVolumes, volumes.communities⟩ (.singletons 6) 6 ∧
      ∃ start, LocalMove.start 6 (.singletons 6) volumes.communities 6 = .ok start ∧
        (run setting start).failure? = none ∧ (run setting start).passes = [4, 0] ∧
        target? setting (run setting start).state 2 = some 1 := by
  intro volumes setting
  have nodes : longPath.nodeCount = 6 := by decide +kernel
  have sums : Volumes.Sound ⟨setting.nodeVolumes, volumes.communities⟩ (.singletons 6) longPath.nodeCount :=
    Volumes.sound_initial longPath true 1 [] (by decide +kernel)
  rw [nodes] at sums
  exact ⟨Graph.fromEdges_of_sound (by decide +kernel), sums,
    ⟨.singletons 6, volumes.communities, #[1, 1, 1, 1, 1, 1], 6⟩, rfl, by decide +kernel,
    by decide +kernel, by decide +kernel⟩

end CommunityDetection.LocalMove
