import CommunityDetection.Proofs.LocalMove.Trail
import CommunityDetection.Proofs.Modularity

/-!
# Moves ascend

In exact arithmetic, on a graph whose weights are the same in both directions, the gain of a node in a
community is its attraction to it. So every move raises the quality (`objective_of_target?`), keeps the
community volumes right (`Sound.move`), and a phase that moves a node ends with a better partition
than it started from (`Trail.quality_lt`).
-/

namespace CommunityDetection.LocalMove
open Finset

variable {K : Type} [Field K] [LinearOrder K]

def objective (setting : Setting K) (state : State K) : K :=
  quality setting.graph.nodeCount setting.graph.weight setting.nodeVolumes.read setting.gamma
    state.assignment.of

structure Sound (setting : Setting K) (state : State K) : Prop where
  within : state.assignment.Within setting.graph.nodeCount
  volumes : (⟨setting.nodeVolumes, state.communityVolumes⟩ : Volumes K).Sound state.assignment
    setting.graph.nodeCount

variable {setting : Setting K} {state : State K} {node : Nat}

theorem get_weights (closed : setting.graph.Closed) (assignment : Assignment) (node community : Nat) :
    (weights setting assignment node).get community =
      ∑ v ∈ (range setting.graph.nodeCount).erase node with assignment.of v = community,
        setting.graph.weight node v := by
  have chosen : ((range setting.graph.nodeCount).erase node).filter (assignment.of · = community) =
      (range setting.graph.nodeCount).filter fun v => v ≠ node ∧ assignment.of v = community := by
    ext v
    simp only [mem_filter, mem_erase]
    tauto
  rw [chosen, ← Graph.sum_row_filter closed, weights, Tally.get_ofPairs, weightAt, List.filter_map,
    List.map_map, List.filter_filter]
  congr 2
  refine List.filter_congr fun entry _ => ?_
  by_cases same : entry.1 = node <;> by_cases inside : assignment.of entry.1 = community <;>
    simp [same, inside]

theorem Sound.volume_of_ne (sound : Sound setting state) {community : Nat}
    (inside : community < setting.graph.nodeCount) (leaves : community ≠ state.assignment.of node) :
    state.communityVolumes.read community =
      ∑ v ∈ (range setting.graph.nodeCount).erase node with state.assignment.of v = community,
        setting.nodeVolumes.read v := by
  rw [sound.volumes.sums community inside, filter_erase, erase_eq_of_notMem]
  intro member
  exact leaves (mem_filter.mp member).2.symm

theorem Sound.volume_of_home (sound : Sound setting state) (bound : node < setting.graph.nodeCount) :
    state.communityVolumes.read (state.assignment.of node) - setting.nodeVolumes.read node =
      ∑ v ∈ (range setting.graph.nodeCount).erase node with
        state.assignment.of v = state.assignment.of node, setting.nodeVolumes.read v := by
  have member : node ∈ (range setting.graph.nodeCount).filter
      (state.assignment.of · = state.assignment.of node) := mem_filter.mpr ⟨mem_range.mpr bound, rfl⟩
  rw [sound.volumes.sums _ (sound.within.bounded node bound), filter_erase, ← add_sum_erase _ _ member]
  ring

theorem stay_eq_attraction (closed : setting.graph.Closed) (sound : Sound setting state)
    (bound : node < setting.graph.nodeCount) :
    stay setting state node = attraction setting.graph.nodeCount setting.graph.weight
      setting.nodeVolumes.read setting.gamma state.assignment.of node (state.assignment.of node) := by
  rw [stay, gain, get_weights closed, sound.volume_of_home bound, attraction_eq]
  ring

theorem Candidate.inside (closed : setting.graph.Closed) (sound : Sound setting state)
    {candidate : Nat × K} (fits : Candidate setting state node candidate) :
    candidate.1 < setting.graph.nodeCount := by
  obtain ⟨v, -, adjacent, equal⟩ := fits.neighbor
  exact equal ▸ sound.within.bounded v (adjacent.lt_right closed)

theorem join_eq_attraction (closed : setting.graph.Closed) (sound : Sound setting state)
    {candidate : Nat × K} (fits : Candidate setting state node candidate) :
    join setting state node candidate = attraction setting.graph.nodeCount setting.graph.weight
      setting.nodeVolumes.read setting.gamma state.assignment.of node candidate.1 := by
  have weight : candidate.2 = (weights setting state.assignment node).get candidate.1 := by
    rw [weights, Tally.get_ofPairs]
    exact Tally.snd_of_mem_ofPairs fits.listed
  rw [join, gain, weight, get_weights closed,
    sound.volume_of_ne (fits.inside closed sound) fits.leaves, attraction_eq]
  ring

theorem Sound.move (closed : setting.graph.Closed) (sound : Sound setting state)
    (bound : node < setting.graph.nodeCount) {candidate : Nat × K}
    (fits : Candidate setting state node candidate) :
    Sound setting (state.move node (setting.nodeVolumes.read node) candidate.1) := by
  have inside := fits.inside closed sound
  have home := sound.within.bounded node bound
  have sizes := sound.volumes.size_communities
  refine ⟨sound.within.assign node inside, sound.volumes.size_nodes, ?_, fun community bounded => ?_⟩
  · simpa [State.move] using sizes
  · change (((state.communityVolumes.add (state.assignment.of node) (-setting.nodeVolumes.read node)).add
        candidate.1 (setting.nodeVolumes.read node)).read community) =
      ∑ v ∈ range setting.graph.nodeCount with
        (state.assignment.assign node candidate.1).of v = community, setting.nodeVolumes.read v
    rw [Cells.read_add_exact (by simpa [sizes] using inside),
      Cells.read_add_exact (by simpa [sizes] using home), sound.volumes.sums community bounded,
      Assignment.of_assign (bound.trans_eq sound.within.size.symm), sum_update_members bound]

theorem Trail.sound (closed : setting.graph.Closed) {start : State K} {count : Nat}
    (trail : Trail setting start count state) (sound : Sound setting start) : Sound setting state := by
  apply trail.keeps _ sound
  intro state node community bound sound moves
  obtain ⟨weight, fits, -⟩ := target?_eq_some moves
  exact sound.move closed bound fits

theorem objective_move (closed : setting.graph.Closed) (symmetric : setting.graph.Symmetric)
    (sound : Sound setting state) (bound : node < setting.graph.nodeCount) {candidate : Nat × K}
    (fits : Candidate setting state node candidate) :
    objective setting (state.move node (setting.nodeVolumes.read node) candidate.1) =
      objective setting state +
        2 * (join setting state node candidate - stay setting state node) := by
  rw [stay_eq_attraction closed sound bound, join_eq_attraction closed sound fits]
  unfold objective
  simp only [State.move]
  rw [Assignment.of_assign (bound.trans_eq sound.within.size.symm), quality_update symmetric _ bound]

variable [IsStrictOrderedRing K]

theorem objective_of_target? {community : Nat} (closed : setting.graph.Closed)
    (symmetric : setting.graph.Symmetric) (sound : Sound setting state)
    (bound : node < setting.graph.nodeCount) (moves : target? setting state node = some community) :
    objective setting (state.move node (setting.nodeVolumes.read node) community) =
        objective setting state + 2 * ((best setting state node).2 - stay setting state node) ∧
      0 < (best setting state node).2 - stay setting state node := by
  obtain ⟨weight, fits, reached, climbs⟩ := target?_eq_some moves
  rw [Relation.transGen_eq_self] at climbs
  rw [reached, ← objective_move closed symmetric sound bound fits]
  exact ⟨rfl, sub_pos.mpr climbs⟩

theorem Trail.quality_lt (closed : setting.graph.Closed) (symmetric : setting.graph.Symmetric)
    {start : State K} {count : Nat} (trail : Trail setting start count state)
    (sound : Sound setting start) (moved : count ≠ 0) :
    objective setting start < objective setting state := by
  have reaches : count = 0 ∨ objective setting start < objective setting state := by
    clear moved
    induction trail with
    | refl => exact .inl rfl
    | move before bound moves ih =>
      obtain ⟨equal, gains⟩ := objective_of_target? closed symmetric (before.sound closed sound) bound moves
      rw [equal]
      rcases ih with none | lower
      · subst none
        cases before
        exact .inr (by linarith)
      · exact .inr (by linarith)
  exact reaches.resolve_left moved

end CommunityDetection.LocalMove
