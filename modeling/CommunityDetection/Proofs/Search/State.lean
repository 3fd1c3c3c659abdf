import CommunityDetection.Proofs.Hierarchy
import CommunityDetection.Proofs.Search.Reached
import CommunityDetection.Proofs.Seeding

/-!
# States of a search

Every root node is part of one node of the current level, and the level condenses the root graph
(`Anchored`). At the start of an iteration the last recorded level describes the communities of the
current level (`Current`). Completed iterations keep both.
-/

namespace CommunityDetection.Search

variable {σ α : Type} {G : Graph α} {state moved recorded next : State α}

def State.part (state : State α) (root : Nat) : Nat :=
  (state.level.graph.toMapped? (Assignment.of state.hierarchy.chain root)).getD 0

def State.community (state : State α) (root : Nat) : Nat := state.level.assignment.of (state.part root)

/-- The current level is well formed and reached from every node of the root graph. -/
structure Anchored (G : Graph α) (state : State α) : Prop where
  formed : state.level.WellFormed
  size : state.hierarchy.chain.size = G.nodeCount
  leads : state.hierarchy.Leads state.level.graph state.part
  condenses : G.Condenses state.level.graph state.part
  separates : state.seeding.Separates state.level.assignment state.level.graph.nodeCount

/-- The last level, if there is one, has the communities of the current level. -/
def Current (G : Graph α) (state : State α) : Prop :=
  ∀ level, state.hierarchy.current? = some level → level.size = G.nodeCount ∧
    ∀ u < G.nodeCount, ∀ v < G.nodeCount,
      (Assignment.of level u = Assignment.of level v ↔ state.community u = state.community v)

structure Held (G : Graph α) (state : State α) : Prop where
  closed : state.level.graph.Closed
  within : state.level.assignment.Within state.level.graph.nodeCount
  separates : state.seeding.Separates state.level.assignment state.level.graph.nodeCount
  size : state.hierarchy.chain.size = G.nodeCount
  leads : state.hierarchy.Leads state.level.graph state.part
  part_lt : ∀ root < G.nodeCount, state.part root < state.level.graph.nodeCount

theorem Anchored.held (anchored : Anchored G state) : Held G state :=
  ⟨anchored.formed.closed, anchored.formed.within, anchored.separates, anchored.size, anchored.leads,
    anchored.condenses.maps⟩

theorem Anchored.part_lt (anchored : Anchored G state) {root : Nat} (bound : root < G.nodeCount) :
    state.part root < state.level.graph.nodeCount := anchored.held.part_lt root bound

/-! ## Recording -/

theorem record_ok (records : moved.record = .ok recorded) :
    recorded = { moved with
      hierarchy := moved.hierarchy.push
        (moved.hierarchy.levelOf moved.part moved.level.assignment moved.seeding) } := by
  unfold State.record at records
  cases written : moved.hierarchy.record moved.level.graph moved.level.assignment moved.seeding with
  | error failure =>
    rw [written] at records
    cases records
  | ok hierarchy =>
    have leads := Hierarchy.leads_of_record written
    rw [Hierarchy.record_of_leads leads] at written
    cases written
    rw [Hierarchy.record_of_leads leads] at records
    cases records
    rfl

theorem record_error {failure : Error α} (failed : moved.record = .error failure) :
    ∃ root id, failure = .inconsistent (.rootLost root id) := by
  unfold State.record at failed
  cases written : moved.hierarchy.record moved.level.graph moved.level.assignment moved.seeding with
  | ok hierarchy =>
    rw [written] at failed
    cases failed
  | error found =>
    rw [written] at failed
    cases failed
    exact Hierarchy.record_error written

theorem leads_of_record (records : moved.record = .ok recorded) :
    moved.hierarchy.Leads moved.level.graph moved.part := by
  unfold State.record at records
  cases written : moved.hierarchy.record moved.level.graph moved.level.assignment moved.seeding with
  | error failure =>
    rw [written] at records
    cases records
  | ok hierarchy => exact Hierarchy.leads_of_record written

theorem leads_recorded (records : moved.record = .ok recorded) :
    recorded.hierarchy.Leads recorded.level.graph recorded.part := by
  have leads := leads_of_record records
  rw [record_ok records]
  exact leads

theorem Held.record (held : Held G moved) (records : moved.record = .ok recorded) :
    Held G recorded := by
  rw [record_ok records]
  exact ⟨held.closed, held.within, held.separates, held.size, held.leads, held.part_lt⟩

theorem Anchored.record (anchored : Anchored G moved) (records : moved.record = .ok recorded) :
    Anchored G recorded := by
  rw [record_ok records]
  exact ⟨anchored.formed, anchored.size, anchored.leads, anchored.condenses, anchored.separates⟩

theorem Held.of_levelOf (held : Held G state) {root : Nat} (bound : root < G.nodeCount) :
    Assignment.of (state.hierarchy.levelOf state.part state.level.assignment state.seeding) root =
      state.seeding.outputId (state.community root) := by
  rw [Hierarchy.levelOf, Hierarchy.of_map_range _ (bound.trans_eq held.size.symm)]
  rfl

theorem Held.levelOf_same_iff (held : Held G state) {u v : Nat} (bound : u < G.nodeCount)
    (bounded : v < G.nodeCount) :
    Assignment.of (state.hierarchy.levelOf state.part state.level.assignment state.seeding) u =
        Assignment.of (state.hierarchy.levelOf state.part state.level.assignment state.seeding) v ↔
      state.community u = state.community v := by
  rw [held.of_levelOf bound, held.of_levelOf bounded]
  constructor
  · exact held.separates.injective held.within (held.part_lt u bound) (held.part_lt v bounded)
  · intro same
    rw [same]

theorem Held.current_recorded (held : Held G moved) (records : moved.record = .ok recorded) :
    Current G recorded := by
  rw [record_ok records]
  intro level last
  rw [Hierarchy.current?_push, Option.some_inj] at last
  subst last
  exact ⟨by simp [Hierarchy.levelOf, held.size],
    fun u bound v bounded => held.levelOf_same_iff bound bounded⟩

theorem Anchored.complete (anchored : Anchored G state) (modularity : α) :
    Anchored G (state.complete modularity) :=
  ⟨anchored.formed, anchored.size, anchored.leads, anchored.condenses, anchored.separates⟩

variable [Scalar α] {plan : Plan σ α} {count : Nat}

/-! ## Local moves -/

theorem Moves.passed (moves : Moves plan state count moved) :
    ∃ start reached, state.level.moveStart = .ok start ∧
      (∃ active, LocalMove.Passed (state.moveSetting plan) start active reached) ∧
      moved = { state with level := state.level.moved reached } := by
  cases moves with
  | intro starts settled => exact ⟨_, _, starts, LocalMove.run_passed _ _, rfl⟩

theorem Moves.eq_of_still (moves : Moves plan state count moved) (still : count = 0) :
    ∃ start, state.level.moveStart = .ok start ∧ moved = { state with level := state.level.moved start } := by
  cases moves with
  | @intro start starts settled => exact ⟨start, starts, by rw [(LocalMove.run_still settled still).1]⟩

theorem Anchored.move (anchored : Anchored G state) (moves : Moves plan state count moved) :
    Anchored G moved := by
  obtain ⟨start, reached, starts, ⟨_, passed⟩, rfl⟩ := moves.passed
  have same := (Level.moveStart_ok starts).1
  refine ⟨anchored.formed.moved starts passed, anchored.size, anchored.leads, anchored.condenses, ?_⟩
  refine anchored.separates.drawn ?_
  rw [← same]
  exact passed.drawn anchored.formed.closed (same ▸ anchored.formed.within.size)

/-! ## The way down -/

theorem refines_refined (plan : Plan σ α) (closed : state.level.graph.Closed)
    (lawful : plan.sampler.Lawful) : state.level.Refines (refined plan state) := Level.refines_refine closed lawful _

theorem Held.descends (held : Held G state) (lawful : plan.sampler.Lawful)
    (descends : Descends plan state next) :
    next.level = state.level.coarsen (refined plan state) ∧
      next.seeding = state.seeding.carry next.level.graph state.level.assignment next.level.assignment ∧
      next.modularities = state.modularities ∧
      next.hierarchy = { state.hierarchy with chain := next.hierarchy.chain } ∧
      next.hierarchy.chain.size = G.nodeCount ∧ ∀ v < G.nodeCount,
        next.level.graph.toMapped? (Assignment.of next.hierarchy.chain v) =
          some (state.level.part (refined plan state) (state.part v)) := by
  have refines := refines_refined plan held.closed lawful
  cases descends with
  | intro follows =>
    rw [Hierarchy.descend_of_leads held.leads] at follows
    cases follows
    refine ⟨rfl, rfl, rfl, rfl, by simp [held.size], fun v bound => ?_⟩
    dsimp only
    rw [Hierarchy.of_map_range _ (bound.trans_eq held.size.symm)]
    exact Level.toMapped?_part refines (held.part_lt v bound)

theorem Held.part_descends (held : Held G state) (lawful : plan.sampler.Lawful)
    (descends : Descends plan state next) {root : Nat} (bound : root < G.nodeCount) :
    next.part root = state.level.part (refined plan state) (state.part root) := by
  obtain ⟨-, -, -, -, -, found⟩ := held.descends lawful descends
  rw [State.part, found root bound, Option.getD_some]

theorem Held.comp_part_descends (held : Held G state) (lawful : plan.sampler.Lawful)
    (descends : Descends plan state next) :
    ∀ v < G.nodeCount, (state.level.part (refined plan state) ∘ state.part) v = next.part v := by
  intro v bound
  rw [Function.comp_apply, held.part_descends lawful descends bound]

theorem Held.community_descends (held : Held G state) (lawful : plan.sampler.Lawful)
    (descends : Descends plan state next) {u v : Nat} (bound : u < G.nodeCount)
    (bounded : v < G.nodeCount) :
    next.community u = next.community v ↔ state.community u = state.community v := by
  have refines := refines_refined plan held.closed lawful
  obtain ⟨level, -⟩ := held.descends lawful descends
  rw [State.community, State.community, held.part_descends lawful descends bound,
    held.part_descends lawful descends bounded, level]
  exact Level.same_iff_coarsen refines (held.part_lt u bound) (held.part_lt v bounded)

theorem Held.current_descends (held : Held G state) (lawful : plan.sampler.Lawful)
    (descends : Descends plan state next) (current : Current G state) : Current G next := by
  intro level last
  obtain ⟨-, -, -, hierarchy, -⟩ := held.descends lawful descends
  rw [hierarchy] at last
  obtain ⟨size, same⟩ := current level last
  exact ⟨size, fun u bound v bounded => (same u bound v bounded).trans
    (held.community_descends lawful descends bound bounded).symm⟩

theorem Anchored.descend (anchored : Anchored G state) (closed : G.Closed)
    (lawful : plan.sampler.Lawful) (descends : Descends plan state next) : Anchored G next := by
  have refines := refines_refined plan anchored.formed.closed lawful
  obtain ⟨level, seeding, -, -, size, found⟩ := anchored.held.descends lawful descends
  have parts := anchored.held.comp_part_descends lawful descends
  have formed := anchored.formed.coarsen refines
  have carried := Coarsening.carried_handover (state.level.coarsen (refined plan state)).graph
    state.level.assignment (refined plan state).volumes
  refine ⟨level ▸ formed, size, fun v bound => ?_, ?_, ?_⟩
  · rw [size] at bound
    rw [found v bound, ← parts v bound, Function.comp_apply]
  · rw [level]
    exact (anchored.condenses.trans closed
      (Level.condenses_coarsen anchored.formed refines)).congr closed parts
  · rw [seeding, level]
    refine anchored.separates.carry carried.size ?_ ?_ ?_
    · exact Coarsening.nodeCount_graph_le _ refines.covers
    · exact fun i bound j bounded => carried.same_iff bound bounded
    · intro node bound
      obtain ⟨u, inside, equal⟩ := Coarsening.exists_merged state.level.graph refines.covers bound
      exact ⟨u, inside, by rw [← equal]; exact Level.origin_part refines inside⟩

/-! ## Iterations -/

theorem Descent.current (descent : Descent plan state count moved recorded next)
    (lawful : plan.sampler.Lawful) (held : Held G moved) (modularity : α) :
    Current G (next.complete modularity) := by
  have current := held.current_recorded descent.records
  intro level last
  exact (held.record descent.records).current_descends lawful descent.descends current level last

theorem Descent.anchored (descent : Descent plan state count moved recorded next) (closed : G.Closed)
    (lawful : plan.sampler.Lawful) (anchored : Anchored G state) (modularity : α) :
    Anchored G (next.complete modularity) ∧ Current G (next.complete modularity) := by
  have formed := anchored.move descent.moves
  have below := (formed.record descent.records).descend closed lawful descent.descends
  exact ⟨below.complete _, descent.current lawful formed.held _⟩

theorem Step.anchored {further : Bool} (step : Step plan further state (.completed next))
    (closed : G.Closed) (lawful : plan.sampler.Lawful) (anchored : Anchored G state) :
    Anchored G next ∧ Current G next := by
  cases step with
  | last moves _ _ records _ =>
    have formed := anchored.move moves
    have current := formed.held.current_recorded records
    exact ⟨(formed.record records).complete _, fun level last => current level last⟩
  | descended moves unsettled progress records _ descends =>
    have descent : Descent plan state _ _ _ _ := ⟨moves, unsettled, progress, records, descends⟩
    exact descent.anchored closed lawful anchored _

theorem Reached.anchored {start : State α} {merged : Nat → Nat}
    (reached : Reached plan start state merged) (closed : G.Closed) (lawful : plan.sampler.Lawful)
    (anchored : Anchored G start) : Anchored G state := by
  induction reached with
  | start => exact anchored
  | descended _ descent ih => exact (descent.anchored closed lawful ih _).1

/-! ## The start -/

omit [Scalar α] in
theorem leads_start {G : Graph α} (kept : G.KeepsIds) (keepAll : Bool) :
    (Hierarchy.start G.nodeCount keepAll).Leads G id := by
  intro v bound
  have inside : v < G.nodeCount := by simpa [Hierarchy.start] using bound
  have chain : Assignment.of (Hierarchy.start G.nodeCount keepAll).chain v = v := Assignment.of_singletons inside
  rw [chain]
  exact kept v inside

theorem anchored_begin {problem : Problem α} {assignment : Assignment} {seeding : Seeding} {additions : List Nat}
    (closed : problem.graph.Closed)
    (comm : ∀ {u v}, problem.graph.Adjacent u v → problem.graph.Adjacent v u)
    (kept : problem.graph.KeepsIds) (within : assignment.Within problem.graph.nodeCount)
    (separates : seeding.Separates assignment problem.graph.nodeCount) :
    Anchored problem.graph (problem.begin assignment seeding additions) ∧
      ∀ v < problem.graph.nodeCount, (problem.begin assignment seeding additions).part v = v := by
  have found : ∀ v < problem.graph.nodeCount, problem.graph.toMapped?
      (Assignment.of (problem.begin assignment seeding additions).hierarchy.chain v) = some v := by
    intro v bound
    exact leads_start kept _ v (by simpa [Hierarchy.start] using bound)
  have parts : ∀ v < problem.graph.nodeCount, (problem.begin assignment seeding additions).part v = v := by
    intro v bound
    rw [State.part]
    exact congrArg (Option.getD · 0) (found v bound)
  have size : (problem.begin assignment seeding additions).hierarchy.chain.size = problem.graph.nodeCount :=
    Assignment.size_singletons _
  refine ⟨⟨⟨closed, comm, within⟩, size, fun v bound => ?_, ?_, separates⟩, parts⟩
  · rw [size] at bound
    rw [parts v bound]
    exact found v bound
  · exact (Graph.Condenses.refl problem.graph).congr closed fun v bound => (parts v bound).symm

end CommunityDetection.Search
