import CommunityDetection.Proofs.Search.Chronicle
import CommunityDetection.Proofs.Search.Failure
import CommunityDetection.Proofs.Search.Rooted

/-!
# Searches are consistent

On a graph built from edges no iteration finds a contradiction in the communities, their number or the
chain of root nodes, and whatever it looks up is there (`Search.Consistent`). The numbers are not assumed
to obey any law, so volumes may still drift; nothing else can be wrong (`Problem.run_consistent`).
-/

namespace CommunityDetection

namespace Search

variable {σ α : Type} [Scalar α] {G : Graph α} {plan : Plan σ α} {state moved : State α}
  {merged : Nat → Nat} {failure : Error α}

/-- What an iteration checks and looks up is in order. -/
structure Consistent (G : Graph α) (plan : Plan σ α) (state : State α) : Prop where
  ready : state.level.Ready
  starts : ∃ start, state.level.moveStart = .ok start
  passes : ∀ start active passed, state.level.moveStart = .ok start →
    LocalMove.Passed (state.moveSetting plan) start active passed →
    Volumes.stray? ⟨state.level.volumes.nodes, passed.communityVolumes⟩ passed.assignment = none
  /-- Every root node leads to a node of the level. -/
  leads : ∀ root < G.nodeCount, ∃ node < state.level.graph.nodeCount,
    state.level.graph.toMapped? (Assignment.of state.hierarchy.chain root) = some node
  records : ∀ count moved, Moves plan state count moved → ∃ recorded, moved.record = .ok recorded
  descends : ∀ count moved recorded, Moves plan state count moved → moved.record = .ok recorded →
    recorded.level.Indexed (refined plan recorded) ∧ ∃ next, Descends plan recorded next

omit [Scalar α] in
theorem Rooted.leads_hierarchy (rooted : Rooted G state merged) (kept : G.KeepsIds) :
    state.hierarchy.Leads state.level.graph merged := by
  intro root bound
  rw [rooted.size] at bound
  exact rooted.leads root bound root bound (kept root bound)

omit [Scalar α] in
theorem Rooted.exists_record (rooted : Rooted G moved merged) (kept : G.KeepsIds) :
    ∃ recorded, moved.record = .ok recorded := by
  rw [State.record, Hierarchy.record_of_leads (rooted.leads_hierarchy kept)]
  exact ⟨_, rfl⟩

theorem Rooted.exists_descends (rooted : Rooted G state merged) (kept : G.KeepsIds) (plan : Plan σ α) :
    ∃ next, Descends plan state next :=
  ⟨_, .intro (Hierarchy.descend_of_leads (rooted.leads_hierarchy kept) _)⟩

theorem Rooted.consistent (rooted : Rooted G state merged) (kept : G.KeepsIds)
    (lawful : plan.sampler.Lawful) : Consistent G plan state := by
  have ready := rooted.ready
  constructor
  · exact ready
  · obtain ⟨start, starts, -⟩ := ready.exists_moveStart
    exact ⟨start, starts⟩
  · intro start active passed starts passes
    exact (ready.moved starts passes).stray?_eq_none
  · exact fun root bound =>
      ⟨merged root, rooted.maps root bound, rooted.leads root bound root bound (kept root bound)⟩
  · exact fun count moved moves => (rooted.move moves).exists_record kept
  · intro count moved recorded moves records
    have rooted := (rooted.move moves).record records
    constructor
    · apply rooted.ready.indexed (refines_refined plan rooted.ready.closed lawful)
      exact rooted.ready.size_volumes_refine lawful _
    · exact rooted.exists_descends kept plan

theorem Consistent.volumeDrift {fault : Inconsistency α} (consistent : Consistent G plan state)
    (failed : Fails plan state (.inconsistent fault)) :
    ∃ community actual expected, fault = .volumeDrift community actual expected := by
  cases failed with
  | start failed =>
    obtain ⟨start, starts⟩ := consistent.starts
    rw [starts] at failed
    cases failed
  | moves starts failed =>
    rcases LocalMove.run_fails failed with unsettled | ⟨_, same, active, passed, passes, drifted⟩
    · cases unsettled
    · cases same
      exact Volumes.exists_volumeDrift (consistent.passes _ active passed starts passes) drifted
  | record moves failed =>
    obtain ⟨recorded, records⟩ := consistent.records _ _ moves
    rw [records] at failed
    cases failed
  | descend moves records failed =>
    obtain ⟨-, next, ⟨follows⟩⟩ := consistent.descends _ _ _ moves records
    rw [follows] at failed
    cases failed

end Search

namespace Problem

variable {σ α : Type} [Scalar α] {G : Graph α} {config : Config α} {problem : Problem α}
  {sampler : Sampler σ α} {plan : Search.Plan σ α} {state : Search.State α} {merged : Nat → Nat}

theorem Enters.consistent (enters : problem.Enters sampler plan state merged)
    (given : G.FromEdges) (fits : Fits G config problem) (lawful : sampler.Lawful) :
    Search.Consistent G plan state := by
  have rooted := enters.rooted fits given.closed lawful
  have kept := Graph.keepsIds_of_untranslated given.edges.2.1
  obtain ⟨assignment, seeding, -, rfl, -⟩ := enters
  exact rooted.consistent kept lawful

/-- Every iteration is in order, so only volumes that drifted can be a contradiction. -/
theorem run_consistent (given : G.FromEdges) (posed : Posed G config problem)
    (lawful : sampler.Lawful) :
    (∀ watch fault, (problem.run sampler watch).1 = .error (.inconsistent fault) →
      ∃ community actual expected, fault = .volumeDrift community actual expected) ∧
    ∀ plan state merged, problem.Enters sampler plan state merged →
      Search.Consistent G plan state := by
  constructor
  · intro watch fault failed
    cases run_error failed with
    | seeds refused =>
      obtain ⟨_, different⟩ := Seeding.resolve_error refused
      cases different
    | iteration enters failed =>
      exact (enters.consistent given posed.fits lawful).volumeDrift failed
  · exact fun plan state merged enters => enters.consistent given posed.fits lawful

theorem run_consistent_star : ∃ plan state merged,
    (star ℚ).Enters (Sampler.steady ℚ) plan state merged ∧ state.iteration = 1 ∧
      Search.Consistent (star ℚ).graph plan state := by
  obtain ⟨plan, state, merged, enters, iteration⟩ := exists_enters (i := 0) run_star (by decide)
  exact ⟨plan, state, merged, enters, iteration, (run_consistent (fromEdges_star (by decide +kernel))
    (posed_star (by decide +kernel)) (Sampler.lawful_steady ℚ)).2 _ _ _ enters⟩

end Problem

end CommunityDetection
