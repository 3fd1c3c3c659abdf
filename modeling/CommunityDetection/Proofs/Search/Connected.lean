import CommunityDetection.Proofs.Search.Problem

/-!
# How connected communities are

The communities of a result are unions of parts, the nodes of the last level, and every part is
connected inside. A community that started from single nodes never joins unconnected regions of the
graph, but two of its nodes are connected inside it only as far as their parts are on the last level:
moves may take away the node between two others, which then stay in one community.
-/

namespace CommunityDetection

section Level

variable {α : Type} [Scalar α] {level : Level α} {scale : Scale α} {concurrency : Nat}
  {start state : LocalMove.State α} {refined : Refinement.Result α}

def Level.Joined (level : Level α) : Prop :=
  ∀ u < level.graph.nodeCount, ∀ v < level.graph.nodeCount,
    level.assignment.of u = level.assignment.of v → level.graph.Linked (fun _ => True) u v

theorem LocalMove.Passed.joined {setting : LocalMove.Setting α} {active : Array Bool}
    (passed : LocalMove.Passed setting start active state) (closed : setting.graph.Closed)
    (comm : ∀ {u v}, setting.graph.Adjacent u v → setting.graph.Adjacent v u)
    (size : start.assignment.size = setting.graph.nodeCount)
    (joined : ∀ u < setting.graph.nodeCount, ∀ v < setting.graph.nodeCount,
      start.assignment.of u = start.assignment.of v → setting.graph.Linked (fun _ => True) u v) :
    ∀ u < setting.graph.nodeCount, ∀ v < setting.graph.nodeCount,
      state.assignment.of u = state.assignment.of v → setting.graph.Linked (fun _ => True) u v :=
  passed.confined closed size
    ⟨fun node => .refl _ _ node, fun linked => linked.symm comm, fun left right => left.trans right⟩
    (fun _ _ adjacent => .single adjacent trivial trivial) joined

theorem Level.Joined.coarsen (joined : level.Joined) (formed : level.WellFormed)
    (refines : level.Refines refined) : (level.coarsen refined).Joined := by
  intro a boundA b boundB same
  obtain ⟨u, boundU, rfl⟩ := Coarsening.exists_merged level.graph refines.covers boundA
  obtain ⟨v, boundV, rfl⟩ := Coarsening.exists_merged level.graph refines.covers boundB
  have linked := joined u boundU v boundV ((Level.same_iff_coarsen refines boundU boundV).mp same)
  exact ((Level.condenses_coarsen formed refines).linked_iff formed.closed (fun _ => True) boundU
    boundV trivial).mp linked

end Level

namespace Search

variable {σ α : Type} [Scalar α] {G : Graph α} {plan : Plan σ α} {state moved next : State α}
  {count : Nat} {ending : Ending α}

theorem Moves.joined (moves : Moves plan state count moved) (formed : state.level.WellFormed)
    (joined : state.level.Joined) : moved.level.Joined := by
  obtain ⟨start, reached, starts, ⟨_, passed⟩, rfl⟩ := moves.passed
  have same := (Level.moveStart_ok starts).1
  refine passed.joined formed.closed formed.comm (same ▸ formed.within.size) ?_
  rw [same]
  exact joined

structure Unseeded (G : Graph α) (state : State α) : Prop where
  anchored : Anchored G state
  current : Current G state
  joined : state.level.Joined
  unlabelled : state.seeding.isSeeded = false
  root : state.hierarchy.current? = none → ∀ v < G.nodeCount, state.part v = v

theorem Step.unseeded {further : Bool} (step : Step plan further state (.completed next))
    (closed : G.Closed) (lawful : plan.sampler.Lawful) (unseeded : Unseeded G state) :
    Unseeded G next := by
  obtain ⟨anchored, current⟩ := step.anchored closed lawful unseeded.anchored
  have unlabelled := unseeded.unlabelled
  cases step with
  | @last moved recorded _ moves _ _ records _ =>
    have joined := moves.joined unseeded.anchored.formed unseeded.joined
    have written : recorded.hierarchy.current? ≠ none := by
      rw [record_ok records, Hierarchy.current?_push]
      nofun
    obtain ⟨start, reached, -, -, rfl⟩ := moves.passed
    refine ⟨anchored, current, ?_, ?_, fun none => absurd none written⟩
    · rw [record_ok records]
      exact joined
    · rw [record_ok records]
      exact unlabelled
  | @descended moved recorded below _ moves _ _ records _ descends =>
    have formed := (unseeded.anchored.move moves).record records
    obtain ⟨level, seeding, -, hierarchy, -⟩ := formed.held.descends lawful descends
    have joined : recorded.level.Joined := by
      rw [record_ok records]
      exact moves.joined unseeded.anchored.formed unseeded.joined
    have written : below.hierarchy.current? ≠ none := by
      have kept : below.hierarchy.current? = recorded.hierarchy.current? := by rw [hierarchy]; rfl
      rw [kept, record_ok records, Hierarchy.current?_push]
      nofun
    refine ⟨anchored, current, ?_, ?_, fun none => absurd none written⟩
    · change below.level.Joined
      rw [level]
      exact joined.coarsen formed.formed (refines_refined plan formed.formed.closed lawful)
    · change below.seeding.isSeeded = false
      obtain ⟨start, reached, -, -, rfl⟩ := moves.passed
      rw [seeding, record_ok records]
      cases labels : state.seeding with
      | unseeded count => rfl
      | seeded labels offset count =>
        rw [labels] at unlabelled
        cases unlabelled

/-- Communities of root nodes are those of a state. -/
structure Shows (G : Graph α) (communities : Array Nat) (state : State α) : Prop where
  size : communities.size = G.nodeCount
  same_iff : ∀ u < G.nodeCount, ∀ v < G.nodeCount,
    (Assignment.of communities u = Assignment.of communities v ↔ state.community u = state.community v)

/-- The communities of the last level or, if there is none, of the start. -/
def State.shown (state : State α) (n : Nat) : Array Nat :=
  state.hierarchy.current?.getD ((List.range n).map fun node =>
    state.seeding.outputId (state.level.assignment.of node)).toArray

omit [Scalar α] in
theorem shows_shown (current : Current G state) (unlabelled : state.seeding.isSeeded = false)
    (root : state.hierarchy.current? = none → ∀ v < G.nodeCount, state.part v = v) :
    Shows G (state.shown G.nodeCount) state := by
  unfold State.shown
  cases last : state.hierarchy.current? with
  | some level =>
    obtain ⟨size, same⟩ := current level last
    exact ⟨size, same⟩
  | none =>
    have read : ∀ v < G.nodeCount, Assignment.of ((List.range G.nodeCount).map fun node =>
        state.seeding.outputId (state.level.assignment.of node)).toArray v = state.community v := by
      intro v bound
      rw [Hierarchy.of_map_range _ bound, State.community, root last v bound]
      cases labels : state.seeding with
      | unseeded count => rfl
      | seeded labels offset count =>
        rw [labels] at unlabelled
        cases unlabelled
    refine ⟨by simp, fun u bound v bounded => ?_⟩
    rw [Option.getD_none, read u bound, read v bounded]

/-- Communities are those of a state with the parts and the graph of the state with which a search ended. -/
structure ShownBy (G : Graph α) (communities : Array Nat) (ended shown : State α) : Prop where
  anchored : Anchored G shown
  joined : shown.level.Joined
  part : shown.part = ended.part
  graph : shown.level.graph = ended.level.graph
  shows : Shows G communities shown

theorem Unseeded.shownBy_moved (unseeded : Unseeded G state) (moves : Moves plan state count moved) :
    ∃ shown, ShownBy G (moved.shown G.nodeCount) moved shown := by
  have anchored := unseeded.anchored.move moves
  have joined := moves.joined unseeded.anchored.formed unseeded.joined
  obtain ⟨start, reached, -, -, rfl⟩ := moves.passed
  cases last : state.hierarchy.current? with
  | some level =>
    -- The moves do not show in the level that was recorded before.
    refine ⟨state, unseeded.anchored, unseeded.joined, rfl, rfl, ?_⟩
    have shows := shows_shown unseeded.current unseeded.unlabelled unseeded.root
    unfold State.shown at shows ⊢
    rw [last] at shows ⊢
    exact shows
  | none =>
    refine ⟨_, anchored, joined, rfl, rfl, shows_shown ?_ unseeded.unlabelled unseeded.root⟩
    intro level found
    exact absurd (last.symm.trans found) nofun

theorem Unseeded.shownBy_recorded (unseeded : Unseeded G state) (moves : Moves plan state count moved)
    (records : moved.record = .ok recorded) :
    ShownBy G (Ending.result ⟨recorded.complete (moved.modularity plan), true, .converged, none⟩
      G.nodeCount).communities (recorded.complete (moved.modularity plan)) recorded := by
  have anchored := unseeded.anchored.move moves
  have joined := moves.joined unseeded.anchored.formed unseeded.joined
  refine ⟨anchored.record records, ?_, rfl, rfl, ?_⟩
  · rw [record_ok records]
    exact joined
  · have last : ∃ level, recorded.hierarchy.current? = some level := by
      rw [record_ok records]
      exact ⟨_, Hierarchy.current?_push _ _⟩
    obtain ⟨level, last⟩ := last
    obtain ⟨size, same⟩ := anchored.held.current_recorded records level last
    have communities : (Ending.result
        ⟨recorded.complete (moved.modularity plan), true, .converged, none⟩
        G.nodeCount).communities = level := by
      change recorded.hierarchy.current?.getD _ = level
      rw [last, Option.getD_some]
    rw [communities]
    exact ⟨size, same⟩

theorem Step.shown {further : Bool} (step : Step plan further state (.ended ending))
    (unseeded : Unseeded G state) :
    ∃ shown, ShownBy G (ending.result G.nodeCount).communities ending.state shown := by
  cases step with
  | @settled moved _ moves _ =>
    have unlabelled : moved.seeding.isSeeded = false := by
      obtain ⟨start, reached, -, -, rfl⟩ := moves.passed
      exact unseeded.unlabelled
    rw [Ending.result, if_neg (by simp [unlabelled])]
    exact unseeded.shownBy_moved moves
  | decreased moves _ _ => exact unseeded.shownBy_moved moves
  | slight moves _ _ records => exact ⟨_, unseeded.shownBy_recorded moves records⟩

end Search

namespace Problem

variable {σ α : Type} [Scalar α] {G : Graph α} {config : Config α} {problem : Problem α}
  {sampler : Sampler σ α} {watch : Watch α} {result : Result α} {ending : Search.Ending α}

theorem Reaches.shown (given : G.FromEdges) (posed : Posed G config problem)
    (unseeded : problem.seeds = none) (lawful : sampler.Lawful)
    (reaches : problem.Reaches sampler ending) :
    ∃ shown, Search.ShownBy G (ending.result G.nodeCount).communities ending.state shown := by
  obtain ⟨assignment, seeding, resolved, run⟩ := reaches
  obtain ⟨anchored, parts⟩ := posed.fits.anchored given.closed given.adjacent_comm given.edges.2.1
    resolved sampler.schedule.additions
  have graph := posed.fits.graph
  subst graph
  rw [unseeded] at resolved
  cases resolved
  have alone : (problem.begin (.singletons problem.graph.nodeCount)
      (.unseeded problem.graph.nodeCount) sampler.schedule.additions).level.Joined := by
    intro u bound v bounded same
    have equal : u = v :=
      (Assignment.of_singletons bound).symm.trans (same.trans (Assignment.of_singletons bounded))
    rw [equal]
    exact .refl _ _ _
  have start : Search.Unseeded problem.graph (problem.begin (.singletons problem.graph.nodeCount)
      (.unseeded problem.graph.nodeCount) sampler.schedule.additions) :=
    ⟨anchored, nofun, alone, rfl, fun _ => parts⟩
  obtain ⟨last, unseeded, finished | ⟨further, step⟩⟩ := run.last
    (fun holds step => step.unseeded given.closed lawful holds) start
  · subst finished
    exact ⟨last, unseeded.anchored, unseeded.joined, rfl, rfl,
      Search.shows_shown unseeded.current unseeded.unlabelled unseeded.root⟩
  · exact step.shown unseeded

/-- The nodes of a part share a community and are connected inside the part. The nodes of a community
are connected in the graph, and inside the community exactly if their parts are on the last level. -/
theorem communities_linked (given : G.FromEdges) (posed : Posed G config problem)
    (unseeded : problem.seeds = none) (lawful : sampler.Lawful)
    (ok : (problem.run sampler watch).1 = .ok result) :
    ∃ ending, problem.Reaches sampler ending ∧ result = ending.result G.nodeCount ∧
      result.communities.size = G.nodeCount ∧
      let part := ending.state.part
      let community := Assignment.of result.communities
      ∀ u < G.nodeCount, ∀ v < G.nodeCount,
        (part u = part v → community u = community v ∧ G.Linked (fun w => part w = part u) u v) ∧
        (community u = community v → G.Linked (fun _ => True) u v ∧
          (G.Linked (fun w => community w = community u) u v ↔
            ending.state.level.graph.Linked
              (fun x => ∃ w < G.nodeCount, part w = x ∧ community w = community u)
              (part u) (part v))) := by
  obtain ⟨ending, reaches, rfl⟩ := run_ok ok
  rw [posed.fits.graph]
  obtain ⟨shown, anchored, joined, part, graph, shows⟩ := reaches.shown given posed unseeded lawful
  refine ⟨ending, reaches, rfl, shows.size, ?_⟩
  intro parts community u bound v bounded
  have condenses := anchored.condenses
  rw [part, graph] at condenses
  have whole : ∀ w < G.nodeCount, ∀ x < G.nodeCount, parts w = parts x → community w = community x := by
    intro w inside x insideX same
    refine (shows.same_iff w inside x insideX).mpr ?_
    rw [Search.State.community, Search.State.community, part]
    exact congrArg shown.level.assignment.of same
  refine ⟨fun same => ⟨whole u bound v bounded same, condenses.linked u bound v bounded same⟩,
    fun same => ⟨?_, ?_⟩⟩
  · have together := (shows.same_iff u bound v bounded).mp same
    have linked := joined _ (anchored.part_lt bound) _ (anchored.part_lt bounded) together
    rw [graph, part] at linked
    exact (condenses.linked_iff given.closed (fun _ => True) bound bounded trivial).mpr linked
  · rw [← condenses.linked_iff given.closed _ bound bounded ⟨u, bound, rfl, rfl⟩]
    refine Graph.Linked.congr given.closed fun w inside => ?_
    constructor
    · exact fun member => ⟨w, inside, rfl, member⟩
    · rintro ⟨x, insideX, equal, member⟩
      rw [← whole x insideX w inside equal, member]

theorem communities_linked_star : (star ℚ).graph.Linked (fun _ => True) 1 2 := by
  obtain ⟨ending, -, -, -, linked⟩ := communities_linked (fromEdges_star (by decide +kernel))
    (posed_star (by decide +kernel)) rfl (Sampler.lawful_steady ℚ) run_star
  exact ((linked 1 (by decide +kernel) 2 (by decide +kernel)).2 rfl).1

/-- A search with the shuffled orders and random choices of a seed that returns two leaves of a star,
but not its centre, as one community. All weights of choices are `1`, to which `exp` rounds this close
to `0`. -/
theorem exists_disconnected_community :
    ∃ result : Result Float, (star Float).graph.FromEdges ∧
      Posed (star Float).graph (star Float).config (star Float) ∧ (star Float).seeds = none ∧
      (Sampler.boltzmann (fun _ : Float => 1) (star Float).config.theta 5).Lawful ∧
      ((star Float).run (Sampler.boltzmann (fun _ => 1) (star Float).config.theta 5)
        fun _ => false).1 = .ok result ∧
      result.terminalState = .converged ∧
      Assignment.of result.communities 1 = Assignment.of result.communities 2 ∧
      ¬(star Float).graph.Linked
        (fun w => Assignment.of result.communities w = Assignment.of result.communities 1) 1 2 := by
  let found := ((star Float).run (Sampler.boltzmann (fun _ => 1) (star Float).config.theta 5)
    fun _ => false).1
  have observed : found.toOption.map (fun result => (result.communities, result.terminalState)) =
      some (#[3, 0, 0, 3], .converged) := by decide +kernel
  cases ok : found with
  | error failure =>
    rw [ok] at observed
    cases observed
  | ok result =>
    rw [ok] at observed
    obtain ⟨communities, converged⟩ := Prod.mk.injEq .. ▸ Option.some_inj.mp observed
    refine ⟨result, fromEdges_star (by decide +kernel), posed_star (by decide +kernel), rfl,
      Sampler.lawful_boltzmann _ _ _, ok, converged, ?_, ?_⟩
    · rw [communities]
      rfl
    · rw [communities]
      intro linked
      -- The only neighbour of a leaf is the centre, which is in the other community.
      rcases Relation.ReflTransGen.cases_head linked with
        same | ⟨centre, ⟨⟨entry, member, rfl⟩, -, inside⟩, -⟩
      · cases same
      · have row : ((star Float).graph.row 1).map Prod.fst = [0] := by decide +kernel
        have centre : entry.1 = 0 :=
          List.mem_singleton.mp (row ▸ List.mem_map_of_mem (f := Prod.fst) member)
        rw [centre] at inside
        exact absurd inside (by decide)

end Problem

end CommunityDetection
