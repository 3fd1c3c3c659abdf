import CommunityDetection.Proofs.Search.Chronicle
import CommunityDetection.Proofs.Search.Failure
import CommunityDetection.Proofs.Search.Rooted

/-!
# Volumes are sums throughout a search

Volumes are computed once. In exact arithmetic moves, merges and the hand-over to coarse levels keep
them right: the volume of a community is the sum over its members, and that of a node is the sum over
the root nodes that were merged into it (`Search.Accounted`). So no search fails because volumes drifted.
-/

namespace CommunityDetection
open Finset

namespace Search

variable {σ K : Type} [Field K] [LinearOrder K] {G : Graph K} {volume : Nat → K} {plan : Plan σ K}
  {start state moved recorded next : State K} {count : Nat} {merged : Nat → Nat}

structure Sums (G : Graph K) (volume : Nat → K) (state : State K) (merged : Nat → Nat) : Prop where
  sound : state.level.volumes.Sound state.level.assignment state.level.graph.nodeCount
  merges : Merges G.nodeCount state.level.graph.nodeCount merged G.weight state.level.graph.weight
    volume state.level.volumes.nodes.read

theorem sound_moveStart {start : LocalMove.State K} (rooted : Rooted G state merged)
    (sums : Sums G volume state merged) (starts : state.level.moveStart = .ok start) :
    LocalMove.Sound (state.moveSetting plan) start := by
  obtain ⟨assignment, volumes⟩ := Level.moveStart_ok starts
  constructor
  · rw [assignment]
    exact rooted.ready.within
  · rw [assignment, volumes]
    exact sums.sound

theorem Sums.move (sums : Sums G volume state merged) (rooted : Rooted G state merged)
    (moves : Moves plan state count moved) : Sums G volume moved merged := by
  obtain ⟨start, reached, starts, ⟨_, passed⟩, rfl⟩ := moves.passed
  exact ⟨(passed.sound rooted.ready.closed (sound_moveStart rooted sums starts)).volumes, sums.merges⟩

theorem Sums.descend (sums : Sums G volume state merged) (closed : state.level.graph.Closed)
    (lawful : plan.sampler.Lawful) (descends : Descends plan state next) :
    Sums G volume next (state.level.part (refined plan state) ∘ merged) := by
  have merges := Level.merges_coarsen plan.scale plan.config.concurrency closed sums.sound.size_nodes
    lawful (plan.sampler.start state.iteration)
  cases descends with
  | intro follows => exact ⟨Coarsening.sound_handover _ _ _, sums.merges.trans merges⟩

theorem Descent.sums (descent : Descent plan state count moved recorded next)
    (lawful : plan.sampler.Lawful) (rooted : Rooted G state merged) (sums : Sums G volume state merged)
    (modularity : K) :
    Sums G volume (next.complete modularity)
      (recorded.level.part (refined plan recorded) ∘ merged) := by
  have level : recorded.level = moved.level := by rw [record_ok descent.records]
  have formed := (rooted.move descent.moves).record descent.records
  have kept := sums.move rooted descent.moves
  have sums : Sums G volume recorded merged := by
    constructor
    · rw [level]
      exact kept.sound
    · rw [level]
      exact kept.merges
  have below := sums.descend formed.ready.closed lawful descent.descends
  exact ⟨below.sound, below.merges⟩

theorem Reached.sums (reached : Reached plan start state merged) (lawful : plan.sampler.Lawful)
    (rooted : Rooted G start id) (sums : Sums G volume start id) : Sums G volume state merged := by
  induction reached with
  | start => exact sums
  | descended before descent ih => exact descent.sums lawful (before.rooted lawful rooted) ih _

/-- What an iteration starts from and what its passes leave behind is accounted for by the volumes of
the root nodes. -/
structure Accounted (G : Graph K) (volume : Nat → K) (plan : Plan σ K) (state : State K)
    (merged : Nat → Nat) : Prop where
  start : state.level.volumes.Sound state.level.assignment state.level.graph.nodeCount
  passes : ∀ start active passed, state.level.moveStart = .ok start →
    LocalMove.Passed (state.moveSetting plan) start active passed →
    Volumes.Sound ⟨state.level.volumes.nodes, passed.communityVolumes⟩ passed.assignment
        state.level.graph.nodeCount ∧
      Volumes.drift? ⟨state.level.volumes.nodes, passed.communityVolumes⟩ passed.assignment = none
  nodes : ∀ a < state.level.graph.nodeCount, state.level.volumes.nodes.read a =
    ∑ v ∈ range G.nodeCount with merged v = a, volume v
  /-- The chain leads from the id of a root node to the node that it was merged into. -/
  chain : ∀ id < G.nodeCount, ∀ v < G.nodeCount, G.toMapped? id = some v →
    state.level.graph.toMapped? (Assignment.of state.hierarchy.chain id) = some (merged v)
  /-- The total volume is that of the root nodes and, where it is positive, the inverse of the
  scale. -/
  total : ∑ a ∈ range state.level.graph.nodeCount, state.level.volumes.nodes.read a =
    ∑ v ∈ range G.nodeCount, volume v
  scale : 0 < ∑ v ∈ range G.nodeCount, volume v →
    ∑ v ∈ range G.nodeCount, volume v = 1 / plan.scale.coefficient

variable [IsStrictOrderedRing K]

theorem Sums.accounted (sums : Sums G volume state merged) (rooted : Rooted G state merged)
    (scale : plan.scale.coefficient = if 0 < ∑ v ∈ range G.nodeCount, volume v then
      1 / ∑ v ∈ range G.nodeCount, volume v else 1) :
    Accounted G volume plan state merged := by
  constructor
  · exact sums.sound
  · intro start active passed starts passes
    have sound := passes.sound rooted.ready.closed (sound_moveStart rooted sums starts)
    exact ⟨sound.volumes, sound.volumes.drift?_eq_none sound.within.bounded⟩
  · exact sums.merges.volumes
  · exact rooted.leads
  · exact sums.merges.total
  · intro positive
    rw [scale, if_pos positive, one_div_one_div]

omit [IsStrictOrderedRing K] in
theorem Accounted.not_drifts (accounted : Accounted G volume plan state merged)
    (rooted : Rooted G state merged) {community : Nat} {actual expected : K} :
    ¬Fails plan state (.inconsistent (.volumeDrift community actual expected)) := by
  intro failed
  cases failed with
  | start failed =>
    obtain ⟨start, starts, -⟩ := rooted.ready.exists_moveStart
    rw [starts] at failed
    cases failed
  | moves starts failed =>
    rcases LocalMove.run_fails failed with unsettled | ⟨fault, -, active, passed, passes, drifted⟩
    · cases unsettled
    · have none := (accounted.passes _ active passed starts passes).2
      cases none.symm.trans drifted
  | record moves failed =>
    obtain ⟨_, _, different⟩ := record_error failed
    cases different
  | descend moves records failed =>
    obtain ⟨_, _, different⟩ := Hierarchy.descend_error failed
    cases different

end Search

namespace Problem

variable {σ K : Type} [Field K] [LinearOrder K] [IsStrictOrderedRing K] {G : Graph K}
  {config : Config K} {problem : Problem K} {sampler : Sampler σ K} {plan : Search.Plan σ K}
  {state : Search.State K} {merged : Nat → Nat}

omit [IsStrictOrderedRing K] in
theorem sums_begin {assignment : Assignment} {seeding : Seeding}
    (within : assignment.Within problem.graph.nodeCount) (additions : List Nat) :
    Search.Sums problem.graph (problem.graph.volume problem.config.countLoops)
      (problem.begin assignment seeding additions) id := by
  constructor
  · exact Volumes.sound_initial _ _ _ _ within.bounded
  · have merges := Merges.refl problem.graph.nodeCount problem.graph.weight
      (problem.volumes assignment additions).nodes.read
    refine ⟨merges.maps, merges.weights, fun a bound => (merges.volumes a bound).trans ?_⟩
    apply sum_congr rfl
    intro v member
    exact Volumes.read_nodes_initial _ _ _ _ _ (mem_range.mp (mem_filter.mp member).1)

theorem Enters.accounted (enters : problem.Enters sampler plan state merged)
    (fits : Fits G config problem) (closed : G.Closed) (lawful : sampler.Lawful) :
    Search.Accounted G (G.volume config.countLoops) plan state merged := by
  have rooted := enters.rooted fits closed lawful
  obtain ⟨assignment, seeding, resolved, rfl, reached⟩ := enters
  obtain ⟨within, -⟩ := fits.within resolved
  have start := fits.rooted_begin closed resolved sampler.schedule.additions
  -- The volumes in the statement are those of the graph and the configuration that were posed.
  obtain ⟨-, graph, same, -, -⟩ := fits
  subst graph same
  have sums := reached.sums lawful start (sums_begin within _)
  exact sums.accounted rooted (Volumes.coefficient_initial _ _ _ _ _)

/-- In exact arithmetic all volumes are accounted for in every iteration, and none drifts. -/
theorem volumes_accounted (closed : G.Closed) (posed : Posed G config problem)
    (lawful : sampler.Lawful) :
    (∀ watch community actual expected, (problem.run sampler watch).1 ≠
      .error (.inconsistent (.volumeDrift community actual expected))) ∧
    ∀ plan state merged, problem.Enters sampler plan state merged →
      Search.Accounted G (G.volume config.countLoops) plan state merged := by
  constructor
  · intro watch community actual expected failed
    cases run_error failed with
    | seeds refused =>
      obtain ⟨_, different⟩ := Seeding.resolve_error refused
      cases different
    | iteration enters failed =>
      have accounted := enters.accounted posed.fits closed lawful
      exact accounted.not_drifts (enters.rooted posed.fits closed lawful) failed
  · exact fun plan state merged enters => enters.accounted posed.fits closed lawful

theorem volumes_accounted_star : ∃ plan state merged,
    (star ℚ).Enters (Sampler.steady ℚ) plan state merged ∧ state.iteration = 1 ∧
      Search.Accounted (star ℚ).graph ((star ℚ).graph.volume (star ℚ).config.countLoops) plan state
        merged := by
  obtain ⟨plan, state, merged, enters, iteration⟩ := exists_enters (i := 0) run_star (by decide)
  exact ⟨plan, state, merged, enters, iteration, (volumes_accounted (fromEdges_star (by decide +kernel)).closed
    (posed_star (by decide +kernel)) (Sampler.lawful_steady ℚ)).2 _ _ _ enters⟩

end Problem

end CommunityDetection
