import CommunityDetection.Proofs.Search.Problem
import CommunityDetection.Proofs.Search.Ready

/-!
# From root nodes to the nodes of a level

In every state that a search reaches the level is in order, every root node was merged into one of its
nodes, and the chain of the hierarchy leads from the id of a root node to the node that it was merged
into (`Rooted`). Nothing is assumed of the numbers or of the ids of the root graph.
-/

namespace CommunityDetection

namespace Search

variable {σ α : Type} [Scalar α] {G : Graph α} {plan : Plan σ α}
  {start state moved recorded next : State α} {count : Nat} {merged : Nat → Nat}

/-- Root nodes are merged into all nodes of the current level, and the chain leads to them. -/
structure Rooted (G : Graph α) (state : State α) (merged : Nat → Nat) : Prop where
  ready : state.level.Ready
  separates : state.seeding.Separates state.level.assignment state.level.graph.nodeCount
  size : state.hierarchy.chain.size = G.nodeCount
  maps : ∀ v < G.nodeCount, merged v < state.level.graph.nodeCount
  onto : ∀ a < state.level.graph.nodeCount, ∃ v < G.nodeCount, merged v = a
  leads : ∀ id < G.nodeCount, ∀ v < G.nodeCount, G.toMapped? id = some v →
    state.level.graph.toMapped? (Assignment.of state.hierarchy.chain id) = some (merged v)
  known : ∀ id < G.nodeCount, G.toMapped? id = none →
    state.level.graph.toMapped? (Assignment.of state.hierarchy.chain id) = none

theorem Rooted.move (rooted : Rooted G state merged) (moves : Moves plan state count moved) :
    Rooted G moved merged := by
  obtain ⟨start, reached, starts, ⟨_, passed⟩, rfl⟩ := moves.passed
  have same := (Level.moveStart_ok starts).1
  refine ⟨rooted.ready.moved starts passed, ?_, rooted.size, rooted.maps, rooted.onto, rooted.leads,
    rooted.known⟩
  apply rooted.separates.drawn
  rw [← same]
  exact passed.drawn rooted.ready.closed (same ▸ rooted.ready.within.size)

omit [Scalar α] in
theorem Rooted.record (rooted : Rooted G moved merged) (records : moved.record = .ok recorded) :
    Rooted G recorded merged := by
  rw [record_ok records]
  exact ⟨rooted.ready, rooted.separates, rooted.size, rooted.maps, rooted.onto, rooted.leads,
    rooted.known⟩

theorem Rooted.descend (rooted : Rooted G state merged) (lawful : plan.sampler.Lawful)
    (leads : state.hierarchy.Leads state.level.graph state.part) (descends : Descends plan state next) :
    Rooted G next (state.level.part (refined plan state) ∘ merged) := by
  have refines := refines_refined plan rooted.ready.closed lawful
  have carried := Coarsening.carried_handover (state.level.coarsen (refined plan state)).graph
    state.level.assignment (refined plan state).volumes
  have size := rooted.size
  cases descends with
  | intro follows =>
    rw [Hierarchy.descend_of_leads leads] at follows
    cases follows
    have chain : ∀ id < G.nodeCount, Assignment.of ((List.range state.hierarchy.chain.size).map
        fun v => (refined plan state).parts.of (state.part v)).toArray id =
          (refined plan state).parts.of (state.part id) :=
      fun id bound => Hierarchy.of_map_range _ (bound.trans_eq size.symm)
    constructor
    · exact rooted.ready.coarsen refines
    · apply rooted.separates.carry carried.size (Coarsening.nodeCount_graph_le _ refines.covers)
      · exact fun i bound j bounded => carried.same_iff bound bounded
      · intro node bound
        obtain ⟨u, inside, rfl⟩ := Coarsening.exists_merged state.level.graph refines.covers bound
        exact ⟨u, inside, Level.origin_part refines inside⟩
    · simpa using size
    · intro v bound
      rw [Function.comp_apply]
      exact Level.part_lt refines (rooted.maps v bound)
    · intro a bound
      obtain ⟨u, inside, rfl⟩ := Coarsening.exists_merged state.level.graph refines.covers bound
      obtain ⟨v, bounded, rfl⟩ := rooted.onto u inside
      refine ⟨v, bounded, ?_⟩
      rw [Function.comp_apply]
      rfl
    · intro id bound v bounded found
      have part : state.part id = merged v := by
        rw [State.part, rooted.leads id bound v bounded found, Option.getD_some]
      show (state.level.coarsen (refined plan state)).graph.toMapped? (Assignment.of _ id) = _
      rw [chain id bound, part, Function.comp_apply]
      exact Level.toMapped?_part refines (rooted.maps v bounded)
    · intro id bound lost
      -- Such an id would have been lost above, but the chain leads from all of them to a node.
      have missing := rooted.known id bound lost
      rw [leads id (bound.trans_eq size.symm)] at missing
      cases missing

theorem Descent.rooted (descent : Descent plan state count moved recorded next)
    (lawful : plan.sampler.Lawful) (rooted : Rooted G state merged) (modularity : α) :
    Rooted G (next.complete modularity) (recorded.level.part (refined plan recorded) ∘ merged) := by
  have formed := (rooted.move descent.moves).record descent.records
  have leads := leads_recorded descent.records
  have below := formed.descend lawful leads descent.descends
  exact ⟨below.ready, below.separates, below.size, below.maps, below.onto, below.leads, below.known⟩

theorem Reached.rooted (reached : Reached plan start state merged) (lawful : plan.sampler.Lawful)
    (rooted : Rooted G start id) : Rooted G state merged := by
  induction reached with
  | start => exact rooted
  | descended _ descent ih => exact descent.rooted lawful ih _

section Roots

omit [Scalar α]

theorem Rooted.exists_root (rooted : Rooted G state merged) (located : G.Located)
    (leads : state.hierarchy.Leads state.level.graph state.part) {id : Nat} (bound : id < G.nodeCount) :
    ∃ v < G.nodeCount, G.toMapped? id = some v ∧ state.part id = merged v := by
  have led := leads id (bound.trans_eq rooted.size.symm)
  cases found : G.toMapped? id with
  | none =>
    rw [rooted.known id bound found] at led
    cases led
  | some v =>
    have bounded := located id v found
    rw [rooted.leads id bound v bounded found, Option.some_inj] at led
    exact ⟨v, bounded, rfl, led.symm⟩

theorem Rooted.held (rooted : Rooted G state merged) (located : G.Located)
    (leads : state.hierarchy.Leads state.level.graph state.part) : Held G state := by
  refine ⟨rooted.ready.closed, rooted.ready.within, rooted.separates, rooted.size, leads, ?_⟩
  intro id bound
  obtain ⟨v, bounded, -, part⟩ := rooted.exists_root located leads bound
  rw [part]
  exact rooted.maps v bounded

end Roots

theorem rooted_begin {problem : Problem α} {assignment : Assignment} {seeding : Seeding} {additions : List Nat}
    (closed : problem.graph.Closed) (within : assignment.Within problem.graph.nodeCount)
    (separates : seeding.Separates assignment problem.graph.nodeCount)
    (counts : seeding.communityCount = (assignment.used problem.graph.nodeCount).card) :
    Rooted problem.graph (problem.begin assignment seeding additions) id := by
  have chain : ∀ id < problem.graph.nodeCount,
      Assignment.of (problem.begin assignment seeding additions).hierarchy.chain id = id :=
    fun id bound => Assignment.of_singletons bound
  constructor
  · exact ⟨closed, within, counts, Volumes.size_nodes_initial _ _ _ _ _,
      Volumes.size_communities_initial _ _ _ _ _⟩
  · exact separates
  · exact Assignment.size_singletons _
  · exact fun v bound => bound
  · exact fun a bound => ⟨a, bound, rfl⟩
  · intro id bound v _ found
    rw [chain id bound]
    exact found
  · intro id bound lost
    rw [chain id bound]
    exact lost

end Search

variable {σ α : Type} [Scalar α] {G : Graph α} {config : Config α} {problem : Problem α}
  {sampler : Sampler σ α} {plan : Search.Plan σ α} {state : Search.State α} {merged : Nat → Nat}

theorem Problem.Fits.rooted_begin (fits : Fits G config problem) (closed : G.Closed)
    {assignment : Assignment} {seeding : Seeding}
    (resolved : Seeding.resolve (α := α) problem.graph.nodeCount problem.seeds =
      .ok (assignment, seeding)) (additions : List Nat) :
    Search.Rooted G (problem.begin assignment seeding additions) id := by
  obtain ⟨within, separates⟩ := fits.within resolved
  have graph := fits.graph
  subst graph
  exact Search.rooted_begin closed within separates
    (Seeding.communityCount_resolve resolved fits.sized)

theorem Problem.Enters.rooted (enters : problem.Enters sampler plan state merged)
    (fits : Fits G config problem) (closed : G.Closed) (lawful : sampler.Lawful) :
    Search.Rooted G state merged := by
  obtain ⟨assignment, seeding, resolved, rfl, reached⟩ := enters
  exact reached.rooted lawful (fits.rooted_begin closed resolved _)

end CommunityDetection
