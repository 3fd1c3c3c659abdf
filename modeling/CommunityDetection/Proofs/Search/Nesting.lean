import CommunityDetection.Proofs.Search.Chronicle

/-!
# Refined classes are nested

Each way down puts the root nodes into classes, one for each node of the coarse level. Where the root
graph keeps its ids, the classes are connected, grow from one way down to the next, and lie inside the
communities that they were refined from and inside those of the next recorded level (`Search.Nested`).
-/

namespace CommunityDetection

namespace Search

variable {σ α : Type} [Scalar α] {G : Graph α} {plan : Plan σ α}
  {start state moved recorded next : State α} {count u v : Nat} {merged : Nat → Nat}

/-- The class of a root node, as an original id of the current graph. -/
def State.classOf (state : State α) (root : Nat) : Nat := Assignment.of state.hierarchy.chain root

/-- What an iteration that started in `state` and ended with the communities of `moved` makes of the
classes of root nodes before it goes on in `next`. -/
structure Nested (G : Graph α) (plan : Plan σ α) (state moved next : State α) : Prop where
  size : next.hierarchy.chain.size = G.nodeCount
  linked : ∀ u < G.nodeCount, ∀ v < G.nodeCount, next.classOf u = next.classOf v →
    G.Linked (fun w => next.classOf w = next.classOf u) u v
  grows : ∀ u < G.nodeCount, ∀ v < G.nodeCount, state.classOf u = state.classOf v →
    next.classOf u = next.classOf v
  first : state.iteration = 0 → ∀ v < G.nodeCount, state.classOf v = v
  inside : ∀ u < G.nodeCount, ∀ v < G.nodeCount, next.classOf u = next.classOf v →
    moved.community u = moved.community v
  recorded : ∀ count after recorded level, Moves plan next count after →
    after.record = .ok recorded → recorded.hierarchy.current? = some level →
      ∀ u < G.nodeCount, ∀ v < G.nodeCount, next.classOf u = next.classOf v →
        Assignment.of level u = Assignment.of level v

omit [Scalar α] in
theorem part_congr (same : state.classOf u = state.classOf v) : state.part u = state.part v := by
  unfold State.classOf at same
  rw [State.part, State.part, same]

theorem Moves.part_eq (moves : Moves plan state count moved) : moved.part = state.part := by
  obtain ⟨start, reached, -, -, rfl⟩ := moves.passed
  rfl

theorem Anchored.classOf_descends (anchored : Anchored G state) (descends : Descends plan state next)
    (bound : u < G.nodeCount) :
    next.classOf u = (refined plan state).parts.of (state.part u) := by
  cases descends with
  | intro follows =>
    rw [Hierarchy.descend_of_leads anchored.leads] at follows
    cases follows
    exact Hierarchy.of_map_range _ (bound.trans_eq anchored.size.symm)

theorem Anchored.classOf_eq_iff (anchored : Anchored G state) (lawful : plan.sampler.Lawful)
    (descends : Descends plan state next) (boundU : u < G.nodeCount) (boundV : v < G.nodeCount) :
    next.classOf u = next.classOf v ↔ next.part u = next.part v := by
  have refines := refines_refined plan anchored.formed.closed lawful
  rw [anchored.classOf_descends descends boundU, anchored.classOf_descends descends boundV,
    anchored.held.part_descends lawful descends boundU,
    anchored.held.part_descends lawful descends boundV]
  exact (Coarsening.merged_eq_iff state.level.graph refines.covers (anchored.part_lt boundU)
    (anchored.part_lt boundV)).symm

theorem Anchored.community_of_part (anchored : Anchored G state) (lawful : plan.sampler.Lawful)
    (descends : Descends plan state next) (boundU : u < G.nodeCount) (boundV : v < G.nodeCount)
    (same : next.part u = next.part v) : state.community u = state.community v := by
  have community : next.community u = next.community v := by rw [State.community, State.community, same]
  exact (anchored.held.community_descends lawful descends boundU boundV).mp community

theorem Anchored.level_of_part (anchored : Anchored G state)
    (moves : Moves plan state count moved) (records : moved.record = .ok recorded) {level : Array Nat}
    (last : recorded.hierarchy.current? = some level) (boundU : u < G.nodeCount)
    (boundV : v < G.nodeCount) (same : state.part u = state.part v) :
    Assignment.of level u = Assignment.of level v := by
  obtain ⟨-, alike⟩ := (anchored.move moves).held.current_recorded records level last
  apply (alike u boundU v boundV).mpr
  rw [record_ok records]
  show moved.level.assignment.of (moved.part u) = moved.level.assignment.of (moved.part v)
  rw [moves.part_eq, same]

theorem Reached.classOf_eq_self (reached : Reached plan start state merged)
    (fresh : ∀ v < G.nodeCount, start.classOf v = v) (first : state.iteration = 0) :
    ∀ v < G.nodeCount, state.classOf v = v := by
  cases reached with
  | start => exact fresh
  | descended => simp [State.complete, Tracker.complete] at first

theorem Descent.nested (descent : Descent plan state count moved recorded next) (closed : G.Closed)
    (lawful : plan.sampler.Lawful) (anchored : Anchored G state)
    (first : state.iteration = 0 → ∀ v < G.nodeCount, state.classOf v = v) (modularity : α) :
    Nested G plan state moved (next.complete modularity) := by
  have formed := (anchored.move descent.moves).record descent.records
  have below := formed.descend closed lawful descent.descends
  have part : recorded.part = state.part := by
    rw [record_ok descent.records, ← descent.moves.part_eq]
    rfl
  have joined : ∀ {u v}, u < G.nodeCount → v < G.nodeCount →
      (next.classOf u = next.classOf v ↔ next.part u = next.part v) :=
    fun boundU boundV => formed.classOf_eq_iff lawful descent.descends boundU boundV
  -- A class holds the root nodes of one coarse node, and the coarse level condenses the root graph.
  constructor
  · exact below.size
  · intro u boundU v boundV same
    apply (Graph.Linked.congr closed fun w inside => ?_).mpr
      (below.condenses.linked u boundU v boundV ((joined boundU boundV).mp same))
    exact joined inside boundU
  · intro u boundU v boundV same
    show next.classOf u = next.classOf v
    rw [formed.classOf_descends descent.descends boundU, formed.classOf_descends descent.descends boundV,
      part, part_congr same]
  · exact first
  · intro u boundU v boundV same
    have community := formed.community_of_part lawful descent.descends boundU boundV
      ((joined boundU boundV).mp same)
    rwa [record_ok descent.records] at community
  · intro count after recorded level moves records last u boundU v boundV same
    exact (below.complete modularity).level_of_part moves records last boundU boundV (part_congr same)

end Search

namespace Problem

variable {σ α : Type} [Scalar α] {G : Graph α} {config : Config α} {problem : Problem α}
  {sampler : Sampler σ α} {plan : Search.Plan σ α} {state moved recorded next : Search.State α}
  {count : Nat} {merged : Nat → Nat}

theorem Enters.nested (enters : problem.Enters sampler plan state merged) (closed : G.Closed)
    (comm : ∀ {u v}, G.Adjacent u v → G.Adjacent v u) (kept : G.KeepsIds)
    (posed : Posed G config problem) (lawful : sampler.Lawful)
    (descent : Search.Descent plan state count moved recorded next) :
    Search.Nested G plan state moved (next.complete (moved.modularity plan)) := by
  obtain ⟨assignment, seeding, resolved, rfl, reached⟩ := enters
  have start := (posed.fits.anchored_of_keepsIds closed comm kept resolved sampler.schedule.additions).1
  have graph := posed.fits.graph
  subst graph
  apply descent.nested closed lawful (reached.anchored closed lawful start)
  exact reached.classOf_eq_self fun v bound => Assignment.of_singletons bound

/-- In every search over a graph that keeps its ids every way down leads to nested, connected classes,
and every iteration of a run but the last goes down. -/
theorem classes_nested (closed : G.Closed) (comm : ∀ {u v}, G.Adjacent u v → G.Adjacent v u)
    (kept : G.KeepsIds) (posed : Posed G config problem) (lawful : sampler.Lawful) :
    (∀ plan state merged count moved recorded next, problem.Enters sampler plan state merged →
      Search.Descent plan state count moved recorded next →
        Search.Nested G plan state moved (next.complete (moved.modularity plan))) ∧
    ∀ watch result, (problem.run sampler watch).1 = .ok result → ∀ i, i + 1 < result.ranIterations →
      ∃ plan state merged count moved recorded next, problem.Enters sampler plan state merged ∧
        state.iteration = i ∧ Search.Descent plan state count moved recorded next := by
  constructor
  · intro plan state merged count moved recorded next enters descent
    exact enters.nested closed comm kept posed lawful descent
  · exact fun watch result ok i before => exists_descent ok before

theorem classes_nested_star : ∃ plan state merged count moved recorded next,
    (star ℚ).Enters (Sampler.steady ℚ) plan state merged ∧
      Search.Descent plan state count moved recorded next ∧
      Search.Nested (star ℚ).graph plan state moved (next.complete (moved.modularity plan)) := by
  have given := fromEdges_star (α := ℚ) (by decide +kernel)
  obtain ⟨nested, descends⟩ := classes_nested given.closed given.adjacent_comm
    (Graph.keepsIds_of_untranslated rfl) (posed_star (by decide +kernel)) (Sampler.lawful_steady ℚ)
  obtain ⟨plan, state, merged, count, moved, recorded, next, enters, -, descent⟩ :=
    descends _ _ run_star 0 (by decide)
  exact ⟨plan, state, merged, count, moved, recorded, next, enters, descent,
    nested _ _ _ _ _ _ _ enters descent⟩

end Problem

end CommunityDetection
