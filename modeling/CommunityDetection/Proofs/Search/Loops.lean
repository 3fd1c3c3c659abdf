import CommunityDetection.Proofs.Graph.Links
import CommunityDetection.Proofs.Progress.Mirroring
import CommunityDetection.Proofs.Search.Contest
import CommunityDetection.Proofs.Search.Scale

/-!
# Loops that volumes leave out

Where volumes leave loops out, a search over a graph and the search over its links move the same nodes, refine
communities into the same parts and go down to coarse graphs with the same links. Loops stay inside
communities, so they add the same to the modularity of every partition, and the gains that searches compare
are the same. So both searches take the same course (`loops_immaterial`). The spans of the workers do depend
on the loops, so where there are several, this takes visits in the order of the nodes.
-/

namespace CommunityDetection

namespace Search

open Session

variable {σ K : Type} [Field K] [LinearOrder K] {G H : Graph K} {volume : Nat → K} {shift : K}
  {plan : Plan σ K} {state left right : State K} {graph : Graph K} {tracker : Tracker K} {count : Nat}
  {further : Bool}

def State.swap (state : State K) (graph : Graph K) (tracker : Tracker K) : State K :=
  { state with toTracker := tracker, level := { state.level with graph } }

/-- Two states that differ in loops below `G` and `H` and in what these add to modularities. -/
inductive Sheds (G H : Graph K) (volume : Nat → K) (shift : K) : State K → State K → Prop
  | intro {state : State K} {graph : Graph K} {tracker : Tracker K} (looped : Balanced G volume state)
      (loopless : Balanced H volume (state.swap graph tracker)) (links : state.level.graph.SameLinks graph)
      (iteration : tracker.iteration = state.iteration)
      (modularities : state.modularities = tracker.modularities.map (· + shift))
      (few : state.level.graph.nodeCount ≤ G.nodeCount) :
      Sheds G H volume shift state (state.swap graph tracker)

/-- On `G` every partition has a modularity that exceeds that on `H` by the same. -/
def Lifts (plan : Plan σ K) (G H : Graph K) (volume : Nat → K) (shift : K) : Prop :=
  ∀ community, plan.scale.coefficient * quality G.nodeCount G.weight volume plan.scale.gamma community =
    plan.scale.coefficient * quality H.nodeCount H.weight volume plan.scale.gamma community + shift

/-! ## Modularities -/

theorem Progress.of_shift (tolerance : K) (previous : Option K) (modularity shift : K) :
    Progress.of tolerance (previous.map (· + shift)) (modularity + shift) =
      Progress.of tolerance previous modularity := by
  cases previous with
  | none => rfl
  | some previous => simp only [Option.map_some, Progress.of, add_sub_add_right_eq_sub]

omit [Field K] [LinearOrder K] in
theorem nodeCount_swap (links : state.level.graph.SameLinks graph) :
    (state.swap graph tracker).level.graph.nodeCount = state.level.graph.nodeCount := links.nodeCount.symm

omit [Field K] [LinearOrder K] in
theorem community_swap (links : state.level.graph.SameLinks graph) :
    (state.swap graph tracker).community = state.community := by
  funext root
  simp only [State.community, State.part, State.swap, links.toMapped?_eq]

theorem Sheds.modularity_eq (sheds : Sheds G H volume shift left right)
    (lifts : Lifts plan G H volume shift) :
    left.modularity plan = right.modularity plan + shift := by
  cases sheds with
  | intro looped loopless links =>
    rw [looped.modularity_eq, loopless.modularity_eq, looped.quality_eq, loopless.quality_eq,
      community_swap links, lifts]

theorem Sheds.progress_eq (sheds : Sheds G H volume shift left right) (lifts : Lifts plan G H volume shift) :
    left.progress plan = right.progress plan := by
  rw [State.progress, State.progress, sheds.modularity_eq lifts]
  cases sheds with
  | intro _ _ _ _ modularities _ => rw [modularities, Array.back?_map, Progress.of_shift]; rfl

theorem Sheds.settled_iff (sheds : Sheds G H volume shift left right) :
    left.Settled count ↔ right.Settled count := by
  cases sheds with
  | intro _ _ links => simp only [State.Settled, State.swap, links.nodeCount]

theorem Sheds.measured_eq (sheds : Sheds G H volume shift left right) (lifts : Lifts plan G H volume shift) :
    left.measured plan count = (right.measured plan count).map (· + shift) := by
  have measures : left.Measures count ↔ right.Measures count := by
    rw [State.Measures, State.Measures, sheds.settled_iff]
    cases sheds with
    | intro _ _ _ iteration => simp only [State.swap, iteration]
  have modularities := sheds.modularity_eq lifts
  by_cases needed : right.Measures count
  · rw [State.measured, State.measured, if_pos needed, if_pos (measures.mpr needed), modularities]
    rfl
  · rw [State.measured, State.measured, if_neg needed, if_neg (measures.not.mpr needed)]
    rfl

/-! ## Local moves -/

theorem moveNodes_swap (inOrder : plan.InOrder n) (few : state.level.graph.nodeCount ≤ n)
    (links : state.level.graph.SameLinks graph) (iteration : tracker.iteration = state.iteration) :
    (moveNodes plan state).Mirrors (fun first second => ∃ reached count,
      first = ({ state with level := state.level.moved reached }, count) ∧
        second = ({ state.swap graph tracker with
          level := (state.swap graph tracker).level.moved reached }, count))
      (moveNodes plan (state.swap graph tracker)) := by
  have starts : (state.swap graph tracker).level.moveStart = state.level.moveStart :=
    Level.moveStart_links links
  have runs (start : LocalMove.State K) :
      LocalMove.run ((state.swap graph tracker).moveSetting plan) start =
        LocalMove.run (state.moveSetting plan) start := by
    have swapped : (state.swap graph tracker).level.graph.nodeCount = state.level.graph.nodeCount :=
      nodeCount_swap links
    have inOrderOn := inOrder.moveSetting (swapped.trans_le few)
    have same : (state.swap graph tracker).iteration = state.iteration := iteration
    rw [State.moveSetting, same] at inOrderOn ⊢
    exact Level.run_links links _ _ _ (inOrder.moveSetting few) inOrderOn start
  refine Mirrors.stage ?_ _
  dsimp only
  rw [starts]
  refine (mirrors_ofExcept _).bind ?_
  rintro start _ rfl - -
  rw [nodeCount_swap links, runs]
  -- Only links were read, so both make the same report.
  generalize LocalMove.run (state.moveSetting plan) start = report
  refine (mirrors_checkpoint _).seq fun _ _ => ?_
  refine (mirrors_forM fun _ => mirrors_note _).seq fun _ _ => ?_
  cases report.failure? with
  | some failure => exact mirrors_throw failure
  | none => exact mirrors_pure ⟨_, _, rfl, rfl⟩

theorem measureNeeded_swap (plan : Plan σ K) (links : state.level.graph.SameLinks graph)
    (measures : state.Measures count ↔ (state.swap graph tracker).Measures count) :
    (measureNeeded plan state count).Mirrors (fun _ _ => True)
      (measureNeeded plan (state.swap graph tracker) count) := by
  have measured : (measure plan state).Mirrors (fun _ _ => True)
      (measure plan (state.swap graph tracker)) := by
    refine Mirrors.stage ?_ _
    rw [nodeCount_swap links]
    exact (mirrors_checkpoint _).seq fun _ _ => mirrors_pure trivial
  unfold measureNeeded
  by_cases needed : state.Measures count
  · rw [if_pos needed, if_pos (measures.mp needed), ← bind_pure_comp, ← bind_pure_comp]
    exact measured.seq fun _ _ => mirrors_pure trivial
  · rw [if_neg needed, if_neg (measures.not.mp needed)]
    exact mirrors_pure trivial

theorem survey_swap (inOrder : plan.InOrder n) (few : state.level.graph.nodeCount ≤ n)
    (links : state.level.graph.SameLinks graph) (iteration : tracker.iteration = state.iteration) :
    (survey plan state).Mirrors (fun first second => ∃ reached count measured measured',
      first = ({ state with level := state.level.moved reached }, count, measured) ∧
        second =
          (State.swap { state with level := state.level.moved reached } graph tracker, count, measured'))
      (survey plan (state.swap graph tracker)) := by
  refine (mirrors_report rfl).seq fun _ _ => ?_
  refine (moveNodes_swap inOrder few links iteration).bind ?_
  rintro _ _ ⟨reached, count, rfl, rfl⟩ - -
  let moved : State K := { state with level := state.level.moved reached }
  have links : moved.level.graph.SameLinks graph := links
  have measures : moved.Measures count ↔ (moved.swap graph tracker).Measures count := by
    simp only [State.Measures, State.Settled, State.swap, links.nodeCount, moved, iteration]
  refine (measureNeeded_swap plan links measures).bind fun measured measured' _ _ _ => ?_
  exact mirrors_pure ⟨reached, count, measured, measured', rfl, rfl⟩

section Moved

variable [IsStrictOrderedRing K]

theorem Sheds.survey_mirrors (sheds : Sheds G H volume shift left right) (inOrder : plan.InOrder G.nodeCount) :
    (survey plan left).Mirrors (fun first second => ∃ moved moved' count,
      Sheds G H volume shift moved moved' ∧ first = (moved, count, moved.measured plan count) ∧
        second = (moved', count, moved'.measured plan count))
      (survey plan right) := by
  cases sheds with
  | @intro graph tracker looped loopless links iteration modularities few =>
    refine (survey_swap inOrder few links iteration).of_gives ?_
    rintro _ _ ⟨reached, count, measured, measured', rfl, rfl⟩ gives gives'
    obtain ⟨moves, found⟩ := survey_gives gives
    obtain ⟨moves', found'⟩ := survey_gives gives'
    dsimp only at moves moves' found found'
    subst found found'
    have sheds : Sheds G H volume shift { left with level := left.level.moved reached }
        (State.swap { left with level := left.level.moved reached } graph tracker) :=
      .intro (looped.move moves) (loopless.move moves') links iteration modularities few
    exact ⟨_, _, count, sheds, rfl, rfl⟩

end Moved

/-! ## Recording and the way down -/

theorem Sheds.complete (sheds : Sheds G H volume shift left right) (modularity : K) :
    Sheds G H volume shift (left.complete (modularity + shift)) (right.complete modularity) := by
  cases sheds with
  | @intro graph tracker looped loopless links iteration modularities few =>
    have history : (left.complete (modularity + shift)).modularities =
        (tracker.complete modularity).modularities.map (· + shift) := by
      simp [State.complete, Tracker.complete, modularities]
    have counted : (tracker.complete modularity).iteration = (left.complete (modularity + shift)).iteration :=
      congrArg (· + 1) iteration
    exact .intro (looped.complete _) (loopless.complete modularity) links counted history few

omit [Field K] [LinearOrder K] in
theorem record_swap (links : state.level.graph.SameLinks graph) (tracker : Tracker K) :
    (state.swap graph tracker).record = state.record.map (·.swap graph tracker) := by
  have same : (state.swap graph tracker).hierarchy.record (state.swap graph tracker).level.graph
      (state.swap graph tracker).level.assignment (state.swap graph tracker).seeding =
        state.hierarchy.record state.level.graph state.level.assignment state.seeding :=
    Hierarchy.record_links links _ _ _
  unfold State.record
  rw [same]
  cases state.hierarchy.record state.level.graph state.level.assignment state.seeding with
  | error failure => rfl
  | ok hierarchy => rfl

theorem Sheds.record_mirrors (sheds : Sheds G H volume shift left right) :
    (Session.ofExcept left.record).Mirrors (Sheds G H volume shift) (Session.ofExcept right.record) := by
  cases sheds with
  | @intro graph tracker looped loopless links iteration modularities few =>
    have same := record_swap links tracker
    cases records : left.record with
    | error failure =>
      rw [same, records]
      exact mirrors_throw failure
    | ok recorded =>
      rw [records] at same
      rw [same]
      have shape := record_ok records
      refine mirrors_pure (.intro (looped.record records) (loopless.record same) ?_ ?_ ?_ ?_)
      · rw [shape]
        exact links
      · rw [shape]
        exact iteration
      · rw [shape]
        exact modularities
      · rw [shape]
        exact few

theorem refine_swap (plan : Plan σ K) (links : state.level.graph.SameLinks graph)
    (iteration : tracker.iteration = state.iteration) :
    (refine plan state).Mirrors (fun first second => first = second ∧ first.2 = refined plan state)
      (refine plan (state.swap graph tracker)) := by
  have parts : refined plan (state.swap graph tracker) = refined plan state := by
    have draws : (state.swap graph tracker).iteration = state.iteration := iteration
    have refines : (state.swap graph tracker).level.refine plan.scale plan.config.concurrency plan.sampler =
      state.level.refine plan.scale plan.config.concurrency plan.sampler := Level.refine_links links _ _ _
    rw [refined, refines, draws]
    rfl
  have follows : (state.swap graph tracker).hierarchy.descend (state.swap graph tracker).level.graph
      (refined plan state).parts =
        state.hierarchy.descend state.level.graph (refined plan state).parts :=
    Hierarchy.descend_links links _ _
  rw [refine_eq, refine_eq, parts, follows, nodeCount_swap links]
  refine Mirrors.stage ?_ _
  refine (mirrors_checkpoint _).seq fun _ _ => (mirrors_ofExcept _).bind ?_
  rintro hierarchy _ rfl - -
  exact mirrors_pure ⟨rfl, rfl⟩

theorem coarsen_swap (links : state.level.graph.SameLinks graph) (hierarchy : Hierarchy)
    {refined : Refinement.Result K}
    (covers : Coarsening.Covers refined.parts state.level.graph.nodeCount refined.largest) :
    (coarsen state hierarchy refined).Mirrors (fun first second => ∃ coarse,
      first.level.graph.SameLinks coarse ∧ second = first.swap coarse tracker ∧
        first.toTracker = state.toTracker) (coarsen (state.swap graph tracker) hierarchy refined) := by
  have graphs : (state.level.coarsen refined).graph.SameLinks
      (Coarsening.graph graph refined.parts refined.largest) := Coarsening.sameLinks_graph links covers
  have coarse : (state.swap graph tracker).level.coarsen refined =
      { state.level.coarsen refined with graph := Coarsening.graph graph refined.parts refined.largest } :=
    Level.coarsen_links links covers
  refine Mirrors.stage ?_ _
  dsimp only
  rw [nodeCount_swap links, coarse]
  refine (mirrors_checkpoint _).seq fun _ _ => ?_
  rw [← graphs.nodeCount, Seeding.carry_links graphs]
  refine (mirrors_note _).seq fun _ _ => ?_
  exact mirrors_pure ⟨_, graphs, rfl, rfl⟩

theorem Sheds.descend_mirrors (sheds : Sheds G H volume shift left right) (closed : G.Closed)
    (closed' : H.Closed) (lawful : plan.sampler.Lawful) :
    (descend plan left).Mirrors (Sheds G H volume shift) (descend plan right) := by
  cases sheds with
  | @intro graph tracker looped loopless links iteration modularities few =>
    have refines := refines_refined plan looped.anchored.formed.closed lawful
    have course : (descend plan left).Mirrors (fun first second => ∃ coarse,
        first.level.graph.SameLinks coarse ∧ second = first.swap coarse tracker ∧
          first.toTracker = left.toTracker) (descend plan (left.swap graph tracker)) := by
      refine (refine_swap plan links iteration).bind ?_
      rintro ⟨hierarchy, _⟩ _ ⟨rfl, rfl⟩ - -
      exact coarsen_swap links hierarchy refines.covers
    refine course.of_gives ?_
    rintro next _ ⟨coarse, links, rfl, kept⟩ gives gives'
    refine .intro (looped.descend closed lawful (descend_gives gives)).1
      (loopless.descend closed' lawful (descend_gives gives')).1 links ?_ ?_
      ((descend_gives gives).nodeCount_le.trans few)
    · rw [kept]
      exact iteration
    · rw [kept]
      exact modularities

/-! ## Whole searches -/

structure EndingSheds (G H : Graph K) (volume : Nat → K) (shift : K) (left right : Ending K) : Prop where
  state : Sheds G H volume shift left.state right.state
  didConverge : left.didConverge = right.didConverge
  terminalState : left.terminalState = right.terminalState
  ofSeeds : left.ofSeeds = right.ofSeeds.map (· + shift)

inductive OutcomeSheds (G H : Graph K) (volume : Nat → K) (shift : K) : Outcome K → Outcome K → Prop
  | ended {left right : Ending K} (sheds : EndingSheds G H volume shift left right) :
      OutcomeSheds G H volume shift (.ended left) (.ended right)
  | completed {left right : State K} (sheds : Sheds G H volume shift left right) :
      OutcomeSheds G H volume shift (.completed left) (.completed right)

theorem Sheds.iteration (sheds : Sheds G H volume shift left right) : left.iteration = right.iteration := by
  cases sheds with
  | intro _ _ _ iteration => exact iteration.symm

theorem Sheds.hierarchy (sheds : Sheds G H volume shift left right) : left.hierarchy = right.hierarchy := by
  cases sheds with
  | intro => rfl

theorem Sheds.veil_summary (sheds : Sheds G H volume shift left right) (measured measured' : Option K) :
    (summary (left, count, measured)).veil = (summary (right, count, measured')).veil := by
  simp only [summary, Event.veil, sheds.iteration]
  cases sheds with
  | intro => rfl

section Course

variable (closed : G.Closed) (closed' : H.Closed) (lawful : plan.sampler.Lawful)

include closed closed' lawful

theorem Sheds.proceed_mirrors (sheds : Sheds G H volume shift left right) (modularity : K) :
    (proceed plan further (modularity + shift) left).Mirrors (OutcomeSheds G H volume shift)
      (proceed plan further modularity right) := by
  have goes : (descendFurther plan further left).Mirrors (Sheds G H volume shift)
      (descendFurther plan further right) := by
    cases further with
    | false => exact mirrors_pure sheds
    | true => exact sheds.descend_mirrors closed closed' lawful
  refine goes.bind fun next next' sheds _ _ => ?_
  exact (mirrors_report rfl).seq fun _ _ => mirrors_pure (.completed (sheds.complete modularity))

variable (lifts : Lifts plan G H volume shift)

include lifts

theorem Sheds.weigh_mirrors (sheds : Sheds G H volume shift left right) :
    (weigh plan further (left, count, left.measured plan count)).Mirrors (OutcomeSheds G H volume shift)
      (weigh plan further (right, count, right.measured plan count)) := by
  unfold weigh
  dsimp only
  by_cases settled : left.Settled count
  · rw [if_pos settled, if_pos (sheds.settled_iff.mp settled)]
    refine (mirrors_report rfl).seq fun _ _ => ?_
    exact mirrors_pure (.ended ⟨sheds, rfl, rfl, sheds.measured_eq lifts⟩)
  · have unsettled := sheds.settled_iff.not.mp settled
    have measured : left.measured plan count = some (right.modularity plan + shift) := by
      rw [← sheds.modularity_eq lifts]
      exact if_pos (.inl settled)
    have measured' : right.measured plan count = some (right.modularity plan) := if_pos (.inl unsettled)
    -- Both modularities exceed those of the other search by the same, so both gains are the same.
    have progress := sheds.progress_eq lifts
    rw [State.progress, State.progress, sheds.modularity_eq lifts] at progress
    rw [if_neg settled, if_neg unsettled, measured, measured', Option.getD_some, Option.getD_some, progress,
      sheds.iteration]
    cases Progress.of plan.config.tolerance right.modularities.back? (right.modularity plan) with
    | decreased =>
      refine (mirrors_note _).seq fun _ _ => (mirrors_report rfl).seq fun _ _ => ?_
      exact mirrors_pure (.ended ⟨sheds, rfl, rfl, rfl⟩)
    | slight =>
      refine sheds.record_mirrors.bind fun recorded recorded' sheds _ _ => ?_
      refine (mirrors_report rfl).seq fun _ _ => ?_
      exact mirrors_pure (.ended ⟨sheds.complete _, rfl, rfl, rfl⟩)
    | substantial =>
      refine sheds.record_mirrors.bind fun recorded recorded' sheds _ _ => ?_
      exact sheds.proceed_mirrors closed closed' lawful _

theorem Sheds.iterate_mirrors [IsStrictOrderedRing K] (inOrder : plan.InOrder G.nodeCount)
    (sheds : Sheds G H volume shift left right) (limit : Nat) :
    (iterate plan limit left).Mirrors (EndingSheds G H volume shift) (iterate plan limit right) := by
  induction limit generalizing left right with
  | zero => exact mirrors_pure ⟨sheds, rfl, rfl, rfl⟩
  | succ limit ih =>
    rw [iterate_succ, iterate_succ]
    refine (sheds.survey_mirrors inOrder).bind ?_
    rintro _ _ ⟨moved, moved', count, sheds, rfl, rfl⟩ - -
    unfold conclude
    rw [bind_assoc, bind_assoc]
    refine (mirrors_report (sheds.veil_summary _ _)).seq fun _ _ => ?_
    refine (sheds.weigh_mirrors closed closed' lawful lifts).bind fun outcome outcome' sheds _ _ => ?_
    cases sheds with
    | ended sheds => exact mirrors_pure sheds
    | completed sheds => exact ih sheds

end Course

theorem EndingSheds.result {left right : Ending K} (sheds : EndingSheds G H volume shift left right)
    (n : Nat) :
    (left.result n).veil = (right.result n).veil ∧
      (left.result n).modularities = (right.result n).modularities.map (· + shift) := by
  obtain ⟨state, didConverge, terminalState, ofSeeds⟩ := sheds
  obtain ⟨last, _, _, _⟩ := left
  obtain ⟨last', _, _, seeds⟩ := right
  dsimp only at state didConverge terminalState ofSeeds
  subst didConverge terminalState ofSeeds
  cases state with
  | @intro graph tracker _ _ _ iteration modularities _ =>
    cases seeds with
    | some modularity => exact ⟨rfl, rfl⟩
    | none =>
      have history : last.modularities.toList = tracker.modularities.toList.map (· + shift) := by
        rw [modularities, Array.toList_map]
      refine ⟨?_, history⟩
      simp only [Ending.result, Result.veil, Option.map_none, State.swap, iteration, history, List.map_map]

end Search

namespace Problem

open Session

variable {σ K : Type} [Field K] [LinearOrder K] {G H : Graph K} {config : Config K} {problem : Problem K}
  {assignment : Assignment} {seeding : Seeding} {additions : List Nat}

def onto (problem : Problem K) (H : Graph K) : Problem K := { problem with graph := H }

section Setup

variable (same : problem.graph.SameLinks H)

include same

omit [Field K] [LinearOrder K] in
theorem nodeCount_onto : (problem.onto H).graph.nodeCount = problem.graph.nodeCount := same.nodeCount.symm

omit [Field K] [LinearOrder K] in
theorem resolve_onto : Seeding.resolve (α := K) (problem.onto H).graph.nodeCount (problem.onto H).seeds =
    Seeding.resolve problem.graph.nodeCount problem.seeds := by
  rw [nodeCount_onto same]
  rfl

variable (uncounted : problem.config.countLoops = false)

include uncounted

theorem volumes_onto (assignment : Assignment) (additions : List Nat) :
    (problem.onto H).volumes assignment additions = problem.volumes assignment additions := by
  simp only [volumes, onto, uncounted, Volumes.initial_links same]

theorem scale_onto (assignment : Assignment) :
    (problem.onto H).scale assignment = problem.scale assignment := by
  rw [scale, scale, volumes_onto same uncounted, Scale.of, Scale.of]
  simp only [onto, uncounted, Volumes.coefficient_links problem.graph H]

theorem setUp_mirrors
    (resolved : Seeding.resolve (α := K) problem.graph.nodeCount problem.seeds = .ok (assignment, seeding)) :
    (problem.setUp additions).Mirrors (fun first second =>
      first = (problem.begin assignment seeding additions, problem.scale assignment) ∧
        second = ((problem.onto H).begin assignment seeding additions, problem.scale assignment))
      ((problem.onto H).setUp additions) := by
  rw [setUp_eq resolved, setUp_eq ((resolve_onto same).trans resolved), scale_onto same uncounted,
    nodeCount_onto same]
  refine Mirrors.stage ?_ _
  exact (mirrors_checkpoint _).seq fun _ _ => mirrors_pure ⟨rfl, rfl⟩

theorem begin_onto (assignment : Assignment) (seeding : Seeding) (additions : List Nat) :
    (problem.onto H).begin assignment seeding additions =
      (problem.begin assignment seeding additions).swap H .start := by
  simp only [Problem.begin, volumes_onto same uncounted, nodeCount_onto same]
  rfl

theorem lifts_uncounted (loopless : ∀ v, ¬H.Adjacent v v) (assignment : Assignment) (sampler : Sampler σ K) :
    Search.Lifts ⟨problem.config, problem.scale assignment, sampler⟩ problem.graph H problem.nodeVolume
      problem.uncounted := by
  intro community
  have weightless : ∀ v, H.weight v v = 0 := fun v => Graph.weight_of_not_adjacent (loopless v)
  rw [same.quality_eq weightless, mul_add, Problem.uncounted, uncounted, scale_congr problem assignment #[]]

end Setup

theorem sheds_begin (same : G.SameLinks H) (given : G.withoutProperties.FromEdges)
    (given' : H.withoutProperties.FromEdges) (posed : Posed G config problem)
    (posed' : Posed H config (problem.onto H)) (uncounted : config.countLoops = false)
    (resolved : Seeding.resolve (α := K) problem.graph.nodeCount problem.seeds = .ok (assignment, seeding))
    (additions : List Nat) :
    Search.Sheds G H problem.nodeVolume problem.uncounted (problem.begin assignment seeding additions)
      ((problem.onto H).begin assignment seeding additions) := by
  have graph := posed.fits.graph
  have configured := posed.fits.config
  subst graph configured
  have resolved' := (resolve_onto same).trans resolved
  have balanced := posed.balanced_of_symmetric resolved given.closed given.adjacent_comm given.symmetric
    given.edges.2.1 additions
  have balanced' := posed'.balanced_of_symmetric resolved' given'.closed given'.adjacent_comm given'.symmetric
    given'.edges.2.1 additions
  have nodeVolume : (problem.onto H).nodeVolume = problem.nodeVolume := by
    rw [Problem.nodeVolume, Problem.nodeVolume, volumes_onto same uncounted]
  rw [begin_onto same uncounted, nodeVolume] at balanced'
  rw [begin_onto same uncounted]
  exact .intro balanced balanced' same rfl Array.map_empty.symm le_rfl

variable [IsStrictOrderedRing K]

theorem solve_mirrors (same : G.SameLinks H) (loopless : ∀ v, ¬H.Adjacent v v)
    (given : G.withoutProperties.FromEdges) (given' : H.withoutProperties.FromEdges)
    (posed : Posed G config problem) (posed' : Posed H config (problem.onto H))
    (uncounted : config.countLoops = false) {sampler : Sampler σ K} (lawful : sampler.Lawful)
    (inOrder : config.Alone G.nodeCount ∨ ∀ iteration pass, sampler.schedule.turns iteration pass = []) :
    (problem.solve sampler).Mirrors (fun first second => first.veil = second.veil ∧
      first.modularities = second.modularities.map (· + problem.uncounted))
        ((problem.onto H).solve sampler) := by
  obtain ⟨assignment, seeding, resolved⟩ := posed.exists_resolve
  have sheds := sheds_begin same given given' posed posed' uncounted resolved sampler.schedule.additions
  have graph := posed.fits.graph
  have configured := posed.fits.config
  subst graph configured
  have closed : problem.graph.Closed := given.closed
  have closed' : H.Closed := given'.closed
  have lifts := lifts_uncounted same uncounted loopless assignment sampler
  refine (setUp_mirrors same uncounted resolved).bind ?_
  rintro _ _ ⟨rfl, rfl⟩ - -
  -- Volumes are the same, and with them the scale, so both searches follow one plan.
  refine (sheds.iterate_mirrors closed closed' lawful lifts inOrder problem.config.maxLevels).bind ?_
  intro ending ending' ends _ _
  dsimp only
  rw [ends.state.iteration, ends.terminalState, ends.state.hierarchy, nodeCount_onto same]
  exact (mirrors_note _).seq fun _ _ => mirrors_pure (ends.result problem.graph.nodeCount)

/-- Where volumes leave loops out and every pass makes its visits in the order of the nodes, as a single worker
does, loops do not influence a search. Over the links alone, with the same draws, it finds the same communities
on every level, stops at the same iteration for the same reason and writes the same journal, but for the
modularities. These are lower by the weight of the loops on the scale of modularity. -/
theorem loops_immaterial {n : Nat} {edges : List (Edge K)} {G : Graph K}
    (built : Graph.ofWeightedEdges n .undirected edges = .ok G) :
    ∃ H, Graph.ofWeightedEdges n .undirected (edges.filter Edge.isLink) = .ok H ∧
      ∀ properties config problem, Posed { G with properties } config problem → config.countLoops = false →
        let bare := problem.onto { H with properties }
        Posed bare.graph config bare ∧
          ∀ σ (sampler : Sampler σ K) (schedule : Schedule) (watch : Watch K), sampler.Lawful → watch.Blind →
            config.Alone n ∨ sampler.schedule = schedule ∧ (∀ iteration pass, schedule.turns iteration pass = []) →
            let looped := problem.run sampler watch
            let loopless := bare.run (sampler.under schedule) watch
            looped.1.map Result.veil = loopless.1.map Result.veil ∧
              looped.2.map Entry.veil = loopless.2.map Entry.veil ∧
              ∀ result plain, looped.1 = .ok result → loopless.1 = .ok plain →
                result.modularities = plain.modularities.map (· + problem.uncounted) := by
  obtain ⟨H, builtLinks, same, loopless⟩ := Graph.sameLinks_filter built
  refine ⟨H, builtLinks, fun properties config problem posed uncounted => ?_⟩
  have given : Graph.FromEdges (Graph.withoutProperties { G with properties }) := by
    obtain ⟨-, rfl⟩ := Graph.build_ok built
    exact .weighted built
  have given' : Graph.FromEdges (Graph.withoutProperties { H with properties }) := by
    obtain ⟨-, rfl⟩ := Graph.build_ok builtLinks
    exact .weighted builtLinks
  have same : Graph.SameLinks { G with properties } { H with properties } :=
    ⟨same.nodeCount, same.links, same.translation⟩
  have orientation : H.orientation = G.orientation := by
    obtain ⟨-, rfl⟩ := Graph.build_ok built
    obtain ⟨-, rfl⟩ := Graph.build_ok builtLinks
    rfl
  have carries : Carries (·.onto { H with properties }) { G with properties } { H with properties }
      config config :=
    ⟨fun _ => rfl, rfl, rfl, orientation, same.nodeCount.symm, rfl⟩
  have posed' := carries.posed posed
  refine ⟨posed', fun σ sampler schedule watch lawful blind inOrder => ?_⟩
  have nodes : Graph.nodeCount { G with properties } = n := by
    obtain ⟨-, rfl⟩ := Graph.build_ok built
    exact Graph.size_rowsOf _ _ _
  have alike : (problem.onto { H with properties }).run (sampler.under schedule) watch =
      (problem.onto { H with properties }).run sampler watch := by
    refine run_under ?_ watch
    rw [posed'.fits.config, posed'.fits.graph, ← same.nodeCount, nodes]
    exact inOrder.imp id fun schedules => schedules.1.symm
  have mirrors := solve_mirrors same loopless given given' posed posed' uncounted lawful
    (inOrder.imp (fun alone => nodes ▸ alone) fun ⟨same, inOrder⟩ => same ▸ inOrder)
  dsimp only
  rw [alike]
  obtain ⟨entries, ⟨failure, failed, failed'⟩ | ⟨result, plain, ⟨veils, modularities⟩, ok, ok'⟩⟩ :=
    mirrors.run blind
  · refine ⟨?_, entries, fun result plain ok => ?_⟩
    · rw [run, run, failed, failed']
    · rw [run, failed] at ok
      cases ok
  · refine ⟨?_, entries, fun result plain found found' => ?_⟩
    · rw [run, run, ok, ok']
      exact congrArg Except.ok veils
    · rw [run, ok] at found
      rw [run, ok'] at found'
      cases found
      cases found'
      exact modularities

/-- The heavy loop is worth fifty, and nothing else of the search shows whether it is there. -/
theorem loops_immaterial_looped : ∃ H,
    Graph.ofWeightedEdges 2 .undirected ([⟨0, 1, 1⟩, ⟨0, 0, 100⟩].filter Edge.isLink) = .ok H ∧
      ((looped.onto H).run (Sampler.steady ℚ) fun _ => false).1.map Result.veil = .ok loopedResult.veil ∧
      ∀ plain, ((looped.onto H).run (Sampler.steady ℚ) fun _ => false).1 = .ok plain →
        [50] = plain.modularities.map (· + 50) := by
  have built : Graph.ofWeightedEdges 2 .undirected [⟨0, 1, 1⟩, ⟨0, 0, 100⟩] = .ok looped.graph :=
    Graph.built_of_sound (by decide +kernel)
  have posed : Posed looped.graph looped.config looped := posed_of_valid (by decide +kernel) rfl rfl rfl
  obtain ⟨H, builtLinks, course⟩ := loops_immaterial built
  obtain ⟨-, rfl⟩ := Graph.build_ok builtLinks
  obtain ⟨-, course⟩ := course [] looped.config looped posed rfl
  obtain ⟨veils, -, modularities⟩ := course _ (Sampler.steady ℚ) {} (fun _ => false) (Sampler.lawful_steady ℚ)
    (Watch.blind_const false) (.inr ⟨rfl, fun _ _ => rfl⟩)
  have fifty : looped.uncounted = 50 := by decide +kernel
  rw [run_looped] at veils modularities
  rw [fifty] at modularities
  exact ⟨_, builtLinks, veils.symm, fun plain ok => modularities _ plain rfl ok⟩

def loopedContest : Problem ℚ where
  graph :=
    ⟨.undirected, true, Graph.rowsOf 1001 .undirected [⟨0, 1, 1⟩, ⟨1, 1000, 1⟩, ⟨0, 0, 1⟩], none, []⟩
  config := { (Config.standard : Config ℚ) with
    maxLevels := 1
    gamma := Scalar.ratio 3 2
    countLoops := false }
  seeds := none

section Path

variable {G : Graph ℚ} {edges : List (Edge ℚ)} (built : Graph.ofWeightedEdges 1001 .undirected edges = .ok G)
  (links : edges.filter Edge.isLink = [⟨0, 1, 1⟩, ⟨1, 1000, 1⟩])

include built links

theorem others_path (node : Nat) : LocalMove.others G node =
    (([⟨0, 1, 1⟩, ⟨1, 1000, 1⟩] : List (Edge ℚ)).flatMap (Edge.entries .undirected node)).filter
      fun entry => entry.1 != node := by
  obtain ⟨H, builtLinks, same, -⟩ := Graph.sameLinks_filter built
  rw [links] at builtLinks
  have row := (Graph.stores_of_build_ok builtLinks).row node
  exact (congrFun same.links node).trans (by rw [Graph.links, row])

theorem others_off_path {node : Nat} (first : node ≠ 0) (middle : node ≠ 1) (last : node ≠ Span.leastSize) :
    LocalMove.others G node = [] := by
  have last : 1000 ≠ node := last.symm
  rw [others_path built links]
  simp [Edge.entries, first.symm, middle.symm, last]

theorem volume_path (node : Nat) : G.volume false node =
    Scalar.total (((([⟨0, 1, 1⟩, ⟨1, 1000, 1⟩] : List (Edge ℚ)).flatMap (Edge.entries .undirected node)).filter
      fun entry => entry.1 != node).map Prod.snd) := by
  rw [← others_path built links, Graph.volume, if_neg (by simp [Graph.countsDegrees])]
  rfl

theorem sum_volume_path : ∑ v ∈ Finset.range G.nodeCount, G.volume false v = 4 := by
  have nodes : G.nodeCount = 1001 := (Graph.stores_of_build_ok built).nodes
  have inside : ({0, 1, 1000} : Finset Nat) ⊆ Finset.range G.nodeCount := by
    intro v member
    simp only [Finset.mem_insert, Finset.mem_singleton] at member
    rw [nodes, Finset.mem_range]
    omega
  rw [← Finset.sum_subset inside fun v _ outside => ?_]
  · simp only [volume_path built links]
    decide +kernel
  · simp only [Finset.mem_insert, Finset.mem_singleton, not_or] at outside
    rw [volume_path built links, ← others_path built links,
      others_off_path built links outside.1 outside.2.1 outside.2.2]
    rfl

theorem gamma_onto_path : ((loopedContest.onto G).scale (.singletons G.nodeCount)).gamma = 3 / 8 := by
  have coefficient : ((loopedContest.onto G).scale (.singletons G.nodeCount)).coefficient = 1 / 4 := by
    refine (Volumes.coefficient_initial G (.singletons G.nodeCount) false 4 []).trans ?_
    rw [sum_volume_path built links, if_pos (by norm_num)]
  have scaled : ((loopedContest.onto G).scale (.singletons G.nodeCount)).gamma = Scalar.ratio 3 2 * (1 / 4) :=
    congrArg (Scalar.ratio 3 2 * ·) coefficient
  rw [scaled]
  decide +kernel

theorem contested_onto_path (few : (edges.flatMap (Edge.traversals .undirected)).length ≤ 5) :
    (loopedContest.onto G).Contested 1 2 := by
  have stores : G.Stores 1001 .undirected true edges := Graph.stores_of_build_ok built
  have relationships : G.relationshipCount ≤ 5 :=
    (stores.relationshipCount fun edge member => (Graph.sound_of_build_ok built edge member).1).trans_le few
  have light : G.relationshipCount + 1001 < 2 * Span.leastSize :=
    Nat.lt_of_le_of_lt (Nat.add_le_add_right relationships 1001) (by decide)
  have cramped : LocalMove.Cramped (1 : ℚ) 2 (3 / 8) := by constructor <;> decide +kernel
  have others := others_path built links
  have volume := volume_path built links
  have several : 1 < loopedContest.config.concurrency := by decide
  refine ⟨rfl, several, rfl, ?_, stores.nodes ▸ by decide, stores.nodes ▸ light, others 0, others 1,
    others 1000, fun _ => others_off_path built links, (volume 0).trans ?_, (volume 1).trans ?_,
    (volume 1000).trans ?_, gamma_onto_path built links ▸ cramped⟩
  · obtain ⟨-, rfl⟩ := Graph.build_ok built
    rfl
  all_goals decide +kernel

end Path

/-- Under another schedule, the search over the links finds other communities. -/
theorem communities_onto_contest_ne : ∃ H result plain,
    Graph.ofWeightedEdges 1001 .undirected [⟨0, 1, 1⟩, ⟨1, 1000, 1⟩, ⟨0, 0, 1⟩] = .ok loopedContest.graph ∧
    Graph.ofWeightedEdges 1001 .undirected ([⟨0, 1, 1⟩, ⟨1, 1000, 1⟩, ⟨0, 0, 1⟩].filter Edge.isLink) = .ok H ∧
    Posed loopedContest.graph loopedContest.config loopedContest ∧
    (loopedContest.run (Sampler.steady ℚ) fun _ => false).1 = .ok result ∧
    ((loopedContest.onto H).run ((Sampler.steady ℚ).under .secondFirst) fun _ => false).1 = .ok plain ∧
      result.communities ≠ plain.communities := by
  have built : Graph.ofWeightedEdges 1001 .undirected [⟨0, 1, 1⟩, ⟨1, 1000, 1⟩, ⟨0, 0, 1⟩] =
      .ok loopedContest.graph := Graph.built_of_sound (by decide +kernel)
  obtain ⟨H, builtLinks, same, -⟩ := Graph.sameLinks_filter built
  have looped : loopedContest.Contested 1 2 := contested_onto_path built (by decide +kernel) (by decide)
  have bare : (loopedContest.onto H).Contested 1 2 :=
    contested_onto_path builtLinks (by decide +kernel) (by decide +kernel)
  obtain ⟨result, inOrder, yields⟩ := looped.run_inOrder (Sampler.schedule_steady ℚ)
  obtain ⟨plain, raced, yielded⟩ := bare.run_secondFirst (Sampler.schedule_under (Sampler.steady ℚ) _)
  have posed : Posed loopedContest.graph loopedContest.config loopedContest :=
    posed_of_valid (by decide +kernel) rfl rfl rfl
  have bound : 1 < loopedContest.graph.nodeCount := Nat.lt_trans (by decide) looped.many
  exact ⟨H, result, plain, built, builtLinks, posed, inOrder, raced,
    yields.communities_ne yielded same.nodeCount.symm bound (by decide)⟩

end Problem

end CommunityDetection
