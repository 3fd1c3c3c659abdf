import CommunityDetection.Proofs.Coarsening.Partition
import CommunityDetection.Proofs.Search.Chronicle
import CommunityDetection.Proofs.Search.Rooted

/-!
# From one iteration to the next

The coarse level of an iteration takes over the partition that its moves led to (`Held.takesOver`), so
the next iteration starts from the same partition of the root nodes, whose communities have the same
labels (`Held.continues`).
-/

namespace CommunityDetection

theorem Level.Refines.lies {α : Type} {level : Level α} {refined : Refinement.Result α}
    (refines : level.Refines refined) :
    Coarsening.Lies level.assignment refined.parts level.graph.nodeCount refined.largest := by
  have covers := refines.covers
  obtain ⟨_, _, sound⟩ := refines
  have inside : ∀ v < level.graph.nodeCount,
      level.assignment.of (refined.parts.of v) = level.assignment.of v := sound.inside
  constructor
  · exact covers
  · exact fun v bound => ⟨sound.within.bounded v bound, sound.named v bound⟩
  · intro u bound v bounded same
    rw [← inside u bound, same, inside v bounded]

namespace Search

variable {σ α : Type} [Scalar α] {G : Graph α} {plan : Plan σ α}
  {state moved recorded next : State α} {count : Nat} {merged : Nat → Nat}

structure TakesOver (plan : Plan σ α) (state next : State α) : Prop where
  handsOver : Coarsening.HandsOver next.level.graph state.level.assignment (refined plan state).parts
    state.level.graph.nodeCount next.level.assignment next.level.communityCount
  seeding : next.seeding =
    state.seeding.carry next.level.graph state.level.assignment next.level.assignment

/-- The root nodes have one partition in both states, and its communities have the same labels. -/
structure Continues (G : Graph α) (state next : State α) : Prop where
  same_iff : ∀ u < G.nodeCount, ∀ v < G.nodeCount,
    (next.community u = next.community v ↔ state.community u = state.community v)
  label?_eq : ∀ u < G.nodeCount,
    next.seeding.label? (next.community u) = state.seeding.label? (state.community u)

theorem Held.takesOver (held : Held G state) (lawful : plan.sampler.Lawful)
    (descends : Descends plan state next) : TakesOver plan state next := by
  have refines := refines_refined plan held.closed lawful
  obtain ⟨level, seeding, -⟩ := held.descends lawful descends
  refine ⟨?_, seeding⟩
  rw [level]
  exact refines.lies.handsOver state.level.graph (refined plan state).volumes

theorem Held.continues (held : Held G state) (lawful : plan.sampler.Lawful)
    (descends : Descends plan state next) : Continues G state next := by
  obtain ⟨handsOver, seeding⟩ := held.takesOver lawful descends
  obtain ⟨level, -⟩ := held.descends lawful descends
  have part : ∀ u < G.nodeCount, next.part u =
      Coarsening.merged next.level.graph (refined plan state).parts (state.part u) := by
    intro u bound
    rw [held.part_descends lawful descends bound, level]
    rfl
  constructor
  · intro u bound v bounded
    rw [State.community, State.community, part u bound, part v bounded]
    exact handsOver.same_iff _ (held.part_lt u bound) _ (held.part_lt v bounded)
  · intro u bound
    rw [State.community, part u bound, seeding]
    exact handsOver.label?_eq state.seeding _ (held.part_lt u bound)

theorem Descent.continues (descent : Descent plan state count moved recorded next)
    (lawful : plan.sampler.Lawful) (held : Held G moved) (modularity : α) :
    TakesOver plan moved next ∧ Continues G moved (next.complete modularity) := by
  have held := held.record descent.records
  have takesOver := held.takesOver lawful descent.descends
  have continues := held.continues lawful descent.descends
  have equal := record_ok descent.records
  subst equal
  exact ⟨⟨takesOver.handsOver, takesOver.seeding⟩, ⟨continues.same_iff, continues.label?_eq⟩⟩

end Search

namespace Problem

variable {σ α : Type} [Scalar α]

/-- Coarse graphs take over partitions and labels. So each iteration of a search starts from the
partition of the root nodes with which the moves of the iteration before ended. -/
theorem partition_handed_over :
    (∀ (G : Graph α) (assignment classes : Assignment) (largest : Nat) (classVolumes : Cells α),
      Coarsening.Lies assignment classes G.nodeCount largest →
        Coarsening.HandsOver (Coarsening.graph G classes largest) assignment classes G.nodeCount
          (Coarsening.handover (Coarsening.graph G classes largest) assignment classVolumes).assignment
          (Coarsening.handover (Coarsening.graph G classes largest) assignment
            classVolumes).communityCount) ∧
    ∀ (G : Graph α) (config : Config α) (problem : Problem α) (sampler : Sampler σ α)
      (plan : Search.Plan σ α) (state moved recorded next : Search.State α) (merged : Nat → Nat)
      (count : Nat), G.Closed → G.Located → Posed G config problem → sampler.Lawful →
        problem.Enters sampler plan state merged →
        Search.Descent plan state count moved recorded next →
          Search.TakesOver plan moved next ∧
            Search.Continues G moved (next.complete (moved.modularity plan)) := by
  refine ⟨fun G assignment classes largest classVolumes lies => lies.handsOver G classVolumes, ?_⟩
  intro G config problem sampler plan state moved recorded next merged count closed located posed
    lawful enters descent
  have rooted := enters.rooted posed.fits closed lawful
  have held := (rooted.move descent.moves).held located (Search.leads_of_record descent.records)
  obtain ⟨_, _, -, rfl, -⟩ := enters
  exact descent.continues lawful held _

theorem partition_handed_over_star :
    Coarsening.HandsOver (Coarsening.graph (star ℚ).graph #[0, 1, 1, 3] 3) #[0, 0, 0, 3] #[0, 1, 1, 3]
        4 #[0, 0, 2] 2 ∧
      ∃ plan state moved next merged, (star ℚ).Enters (Sampler.steady ℚ) plan state merged ∧
        state.iteration = 0 ∧ Search.TakesOver plan moved next ∧
        Search.Continues (star ℚ).graph moved (next.complete (moved.modularity plan)) := by
  have given := fromEdges_star (α := ℚ) (by decide +kernel)
  obtain ⟨handsOver, continues⟩ := partition_handed_over (σ := Unit) (α := ℚ)
  constructor
  · have nodes : (star ℚ).graph.nodeCount = 4 := by decide +kernel
    have lies : Coarsening.Lies #[0, 0, 0, 3] #[0, 1, 1, 3] 4 3 :=
      ⟨⟨rfl, by decide⟩, by decide, by decide⟩
    have handed : let coarse := Coarsening.graph (star ℚ).graph #[0, 1, 1, 3] 3
        (Coarsening.handover coarse #[0, 0, 0, 3] #[]).assignment = #[0, 0, 2] ∧
          (Coarsening.handover coarse #[0, 0, 0, 3] #[]).communityCount = 2 := by
      decide +kernel
    have partition := handsOver (star ℚ).graph #[0, 0, 0, 3] #[0, 1, 1, 3] 3 #[] (nodes ▸ lies)
    rwa [nodes, handed.1, handed.2] at partition
  · obtain ⟨plan, state, merged, count, moved, recorded, next, enters, iteration, descent⟩ :=
      exists_descent (i := 0) run_star (by decide)
    obtain ⟨takesOver, continues⟩ := continues (star ℚ).graph (star ℚ).config (star ℚ)
      (Sampler.steady ℚ) plan state moved recorded next merged count given.closed
      (Graph.faithful_of_untranslated rfl).located (posed_star (by decide +kernel))
      (Sampler.lawful_steady ℚ) enters descent
    exact ⟨plan, state, moved, next, merged, enters, iteration, takesOver, continues⟩

end Problem

end CommunityDetection
