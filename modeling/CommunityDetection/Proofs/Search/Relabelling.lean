import CommunityDetection.Proofs.Relabelling
import CommunityDetection.Proofs.Search.RootIds
import CommunityDetection.Proofs.Search.Rooted

/-!
# Searches from seeds with other labels

Two searches whose seedings are `Seeding.Renamed` go through the same levels, with the same moves,
volumes and modularities. What they record corresponds entry by entry (`Relabels.iterate_matches`).
-/

namespace CommunityDetection

def Corresponds (related : Nat → Nat → Prop) (left right : Array (Array Nat)) : Prop :=
  List.Forall₂ (fun first second => List.Forall₂ related first.toList second.toList) left.toList
    right.toList

/-- Two results that agree but for the output ids, which correspond. -/
structure Result.Corresponds {α : Type} (related : Nat → Nat → Prop) (left right : Result α) : Prop where
  communities : List.Forall₂ related left.communities.toList right.communities.toList
  levels : Option.Rel (fun first second => CommunityDetection.Corresponds related first.levels second.levels)
    left.dendrogram right.dendrogram
  rest : { left with communities := right.communities, dendrogram := right.dendrogram } = right

section Corresponds

variable {related : Nat → Nat → Prop} {left right : Array (Array Nat)}

theorem Corresponds.push (corresponds : Corresponds related left right) {first second : Array Nat}
    (last : List.Forall₂ related first.toList second.toList) :
    Corresponds related (left.push first) (right.push second) := by
  unfold Corresponds
  rw [Array.toList_push, Array.toList_push]
  exact List.rel_append corresponds (.cons last .nil)

theorem corresponds_singleton {first second : Array Nat}
    (last : List.Forall₂ related first.toList second.toList) :
    Corresponds related #[first] #[second] := .cons last .nil

theorem Corresponds.back? (corresponds : Corresponds related left right) :
    Option.Rel (fun first second => List.Forall₂ related first.toList second.toList) left.back?
      right.back? := by
  have reversed := List.forall₂_reverse_iff.mpr corresponds
  rw [← Array.getLast?_toList, ← Array.getLast?_toList, ← List.head?_reverse, ← List.head?_reverse]
  generalize left.toList.reverse = leftLevels, right.toList.reverse = rightLevels at reversed
  cases reversed with
  | nil => exact .none
  | cons last _ => exact .some last

theorem Corresponds.back?_getD (corresponds : Corresponds related left right) {first second : Array Nat}
    (none : left = #[] → List.Forall₂ related first.toList second.toList) :
    List.Forall₂ related (left.back?.getD first).toList (right.back?.getD second).toList := by
  have last := corresponds.back?
  cases leftLast : left.back? with
  | none =>
    rw [leftLast] at last
    cases rightLast : right.back? with
    | none => exact none (Array.back?_eq_none_iff.mp leftLast)
    | some level =>
      rw [rightLast] at last
      cases last
  | some level =>
    rw [leftLast] at last
    cases rightLast : right.back? with
    | none =>
      rw [rightLast] at last
      cases last
    | some other =>
      rw [rightLast] at last
      cases last with
      | some same => exact same

end Corresponds

namespace Search

open Session

variable {σ α : Type} {f : Nat → Nat} {seeds : List (Option Nat)}
  {left right leftMoved leftNext rightNext : State α} {count limit : Nat} {further : Bool}

structure Relabels (f : Nat → Nat) (seeds : List (Option Nat)) (left right : State α) : Prop where
  level : right.level = left.level
  tracker : right.toTracker = left.toTracker
  keepAll : right.hierarchy.keepAll = left.hierarchy.keepAll
  chain : right.hierarchy.chain = left.hierarchy.chain
  levels : Corresponds (Seeding.Renames f seeds) left.hierarchy.levels right.hierarchy.levels
  seeding : Seeding.Renamed f seeds left.level.assignment left.level.graph.nodeCount left.seeding
    right.seeding
  ready : left.level.Ready
  located : left.level.graph.Located
  few : left.level.graph.nodeCount ≤ seeds.length
  /-- Until a level is recorded, the search works on the root graph. -/
  root : left.hierarchy.levels = #[] → left.level.graph.nodeCount = seeds.length

/-- Both searches measure the modularity of the same iterations: without seeds only the first one is an
exception. -/
def SeededAlike (left right : State α) : Prop :=
  left.seeding.isSeeded = right.seeding.isSeeded ∨ left.iteration ≠ 0

theorem Relabels.iteration (relabels : Relabels f seeds left right) :
    right.iteration = left.iteration := congrArg Tracker.iteration relabels.tracker

theorem Relabels.complete (relabels : Relabels f seeds left right) (modularity : α) :
    Relabels f seeds (left.complete modularity) (right.complete modularity) :=
  ⟨relabels.level, congrArg (Tracker.complete · modularity) relabels.tracker, relabels.keepAll,
    relabels.chain, relabels.levels, relabels.seeding, relabels.ready, relabels.located, relabels.few,
    relabels.root⟩

theorem Relabels.settled_iff (relabels : Relabels f seeds left right) :
    right.Settled count ↔ left.Settled count := by
  unfold State.Settled
  rw [relabels.level]

theorem Relabels.outputIds (relabels : Relabels f seeds left right) (items : List Nat)
    (node : Nat → Nat) (bounded : ∀ item ∈ items, node item < left.level.graph.nodeCount) :
    List.Forall₂ (Seeding.Renames f seeds)
      (items.map fun item => left.seeding.outputId (left.level.assignment.of (node item)))
      (items.map fun item => right.seeding.outputId (right.level.assignment.of (node item))) := by
  rw [List.forall₂_map_left_iff, List.forall₂_map_right_iff, List.forall₂_same, relabels.level]
  intro item member
  exact relabels.seeding.outputId relabels.ready.within relabels.few (bounded item member)

theorem Relabels.current (relabels : Relabels f seeds left right)
    (none : left.hierarchy.levels = #[]) {n : Nat} (length : seeds.length = n) :
    List.Forall₂ (Seeding.Renames f seeds)
      ((List.range n).map fun node => left.seeding.outputId (left.level.assignment.of node))
      ((List.range n).map fun node => right.seeding.outputId (right.level.assignment.of node)) :=
  relabels.outputIds (List.range n) id fun _ inRange =>
    (List.mem_range.mp inRange).trans_eq (length.symm.trans (relabels.root none).symm)

/-! ## Recording -/

theorem Relabels.push (relabels : Relabels f seeds left right) {first second : Array Nat}
    (last : List.Forall₂ (Seeding.Renames f seeds) first.toList second.toList) :
    Relabels f seeds (left.push first) (right.push second) := by
  refine ⟨relabels.level, relabels.tracker, relabels.keepAll, relabels.chain, ?_, relabels.seeding,
    relabels.ready, relabels.located, relabels.few, fun none => absurd none (levels_push_ne first)⟩
  unfold State.push Hierarchy.push
  dsimp only
  rw [relabels.keepAll]
  split
  · exact relabels.levels.push last
  · exact corresponds_singleton last

theorem Relabels.leads (relabels : Relabels f seeds left right) {part : Nat → Nat}
    (leads : left.hierarchy.Leads left.level.graph part) :
    right.hierarchy.Leads right.level.graph part := by
  unfold Hierarchy.Leads
  rw [relabels.chain, relabels.level]
  exact leads

theorem Relabels.loses (relabels : Relabels f seeds left right) {v : Nat}
    (loses : left.hierarchy.Loses left.level.graph v) :
    right.hierarchy.Loses right.level.graph v := by
  obtain ⟨bound, lost, first⟩ := loses
  constructor
  · rwa [relabels.chain]
  · rwa [relabels.chain, relabels.level]
  · rwa [relabels.chain, relabels.level]

theorem Relabels.record_matches (relabels : Relabels f seeds left right) :
    (Session.ofExcept left.record).Matches
      (fun first second => Relabels f seeds first second ∧ first.hierarchy.levels ≠ #[])
      (Session.ofExcept right.record) := by
  rcases Hierarchy.leads_or_loses left.hierarchy left.level.graph with leads | ⟨v, loses⟩
  · rw [record_of_leads leads, record_of_leads (relabels.leads leads)]
    refine matches_ofExcept ⟨relabels.push ?_, levels_push_ne _⟩
    unfold Hierarchy.levelOf
    rw [relabels.chain]
    refine relabels.outputIds _ _ fun v inRange => ?_
    exact relabels.located _ _ (leads v (List.mem_range.mp inRange))
  · rw [Problem.record_of_loses loses, Problem.record_of_loses (relabels.loses loses), relabels.chain]
    exact matches_throw _

variable [Scalar α] {plan : Plan σ α}

/-! ## The survey of an iteration -/

theorem Relabels.moved (relabels : Relabels f seeds left right)
    (moves : Moves plan left count leftMoved) :
    Relabels f seeds leftMoved { right with level := leftMoved.level } := by
  obtain ⟨start, reached, starts, ⟨_, passed⟩, rfl⟩ := moves.passed
  have same := (Level.moveStart_ok starts).1
  refine ⟨rfl, relabels.tracker, relabels.keepAll, relabels.chain, relabels.levels, ?_,
    relabels.ready.moved starts passed, relabels.located, relabels.few, relabels.root⟩
  apply relabels.seeding.drawn
  rw [← same]
  exact passed.drawn relabels.ready.closed (same ▸ relabels.ready.within.size)

theorem Relabels.moveNodes_matches (relabels : Relabels f seeds left right) :
    (moveNodes plan left).Matches (fun first second => ∃ level count,
      first = ({ left with level }, count) ∧ second = ({ right with level }, count) ∧
        Relabels f seeds { left with level } { right with level }) (moveNodes plan right) := by
  have same := congrArg Level.bare relabels.level
  refine (Search.moveNodes_matches same.symm relabels.iteration.symm).of_gives ?_
  rintro _ _ ⟨reached, count, rfl, rfl⟩ gives -
  have moved := relabels.moved (moveNodes_gives gives)
  rw [relabels.level]
  exact ⟨_, count, rfl, rfl, moved⟩

theorem Relabels.measureNeeded_eq (relabels : Relabels f seeds left right)
    (alike : left.Settled count → SeededAlike left right) :
    measureNeeded plan right count = measureNeeded plan left count := by
  have needed : right.Measures count ↔ left.Measures count := by
    unfold State.Measures
    rw [relabels.settled_iff, relabels.iteration]
    by_cases settled : left.Settled count
    · rcases alike settled with same | later
      · rw [same]
      · simp [later]
    · simp [settled]
  have measured : measure plan right = measure plan left := by
    unfold measure
    rw [relabels.level]
  simp only [measureNeeded, needed, measured]

theorem Relabels.survey_matches (relabels : Relabels f seeds left right)
    (alike : SeededAlike left right) :
    (survey plan left).Matches (fun first second => first.2 = second.2 ∧
      Relabels f seeds first.1 second.1) (survey plan right) := by
  refine matches_bind_same fun _ _ => ?_
  refine relabels.moveNodes_matches.bind ?_
  rintro _ _ ⟨level, count, rfl, rfl, moved⟩ - -
  dsimp only
  rw [moved.measureNeeded_eq fun _ => alike]
  exact matches_bind_same fun _ _ => matches_pure ⟨rfl, moved⟩

/-! ## The way down -/

theorem Relabels.refined_eq (relabels : Relabels f seeds left right) (plan : Plan σ α) :
    refined plan right = refined plan left := by
  unfold refined
  rw [relabels.level, relabels.iteration]

omit [Scalar α] in
theorem Relabels.follow_matches (relabels : Relabels f seeds left right) (classes : Assignment) :
    (Session.ofExcept (left.hierarchy.descend left.level.graph classes)).Matches
      (fun first second => ∃ chain, first = { left.hierarchy with chain } ∧
        second = { right.hierarchy with chain })
      (Session.ofExcept (right.hierarchy.descend right.level.graph classes)) := by
  rcases Hierarchy.leads_or_loses left.hierarchy left.level.graph with leads | ⟨v, loses⟩
  · rw [Hierarchy.descend_of_leads leads, Hierarchy.descend_of_leads (relabels.leads leads),
      relabels.chain]
    exact matches_ofExcept ⟨_, rfl, rfl⟩
  · rw [Hierarchy.descend, Hierarchy.translate_of_loses loses, Hierarchy.descend,
      Hierarchy.translate_of_loses (relabels.loses loses), relabels.chain]
    exact matches_throw _

def State.below (plan : Plan σ α) (state : State α) (chain : Array Nat) : State α :=
  { state with
    level := state.level.coarsen (refined plan state)
    hierarchy := { state.hierarchy with chain }
    seeding := state.seeding.carry (state.level.coarsen (refined plan state)).graph
      state.level.assignment (state.level.coarsen (refined plan state)).assignment }

theorem Relabels.below (relabels : Relabels f seeds left right) (lawful : plan.sampler.Lawful)
    (recorded : left.hierarchy.levels ≠ #[]) (chain : Array Nat) :
    Relabels f seeds (left.below plan chain) (right.below plan chain) := by
  have refines := refines_refined plan relabels.ready.closed lawful
  have carried := Coarsening.carried_handover (left.level.coarsen (refined plan left)).graph
    left.level.assignment (refined plan left).volumes
  have fewer := Coarsening.nodeCount_graph_le left.level.graph refines.covers
  have level : right.level.coarsen (refined plan right) = left.level.coarsen (refined plan left) := by
    rw [relabels.refined_eq, relabels.level]
  refine ⟨level, relabels.tracker, relabels.keepAll, rfl, relabels.levels, ?_,
    relabels.ready.coarsen refines, (Coarsening.faithful_graph _ _ _).located,
    fewer.trans relabels.few, fun none => absurd none recorded⟩
  unfold State.below
  dsimp only
  rw [level, relabels.level]
  apply relabels.seeding.carry carried.size
  · exact fun i bound j bounded => carried.same_iff bound bounded
  · intro node bound
    obtain ⟨u, inside, rfl⟩ := Coarsening.exists_merged left.level.graph refines.covers bound
    exact ⟨u, inside, Level.origin_part refines inside⟩

theorem Relabels.refine_matches (relabels : Relabels f seeds left right) :
    (refine plan left).Matches (fun first second => ∃ chain,
      first = ({ left.hierarchy with chain }, refined plan left) ∧
        second = ({ right.hierarchy with chain }, refined plan right)) (refine plan right) := by
  have follows := relabels.follow_matches (refined plan left).parts
  rw [relabels.level] at follows
  rw [refine_eq, refine_eq, relabels.refined_eq, relabels.level]
  refine Matches.stage (matches_bind_same fun _ _ => ?_) _
  refine follows.bind fun first second ⟨chain, leftHierarchy, rightHierarchy⟩ _ _ => ?_
  rw [leftHierarchy, rightHierarchy]
  exact matches_pure ⟨chain, rfl, rfl⟩

theorem Relabels.descend_matches (relabels : Relabels f seeds left right)
    (lawful : plan.sampler.Lawful) (recorded : left.hierarchy.levels ≠ #[]) :
    (descend plan left).Matches (Relabels f seeds) (descend plan right) := by
  refine relabels.refine_matches.bind fun first second ⟨chain, leftBelow, rightBelow⟩ _ _ => ?_
  have below := relabels.below lawful recorded chain
  subst leftBelow rightBelow
  unfold State.below at below
  rw [relabels.refined_eq, relabels.level] at below
  rw [relabels.refined_eq]
  dsimp only
  unfold coarsen
  rw [relabels.level]
  refine Matches.stage (matches_bind_same fun _ _ => ?_) _
  exact matches_bind_same fun _ _ => matches_pure below

theorem Relabels.descendFurther_matches (relabels : Relabels f seeds left right)
    (lawful : plan.sampler.Lawful) (recorded : left.hierarchy.levels ≠ #[]) :
    (descendFurther plan further left).Matches (Relabels f seeds) (descendFurther plan further right) := by
  cases further with
  | false => exact matches_pure relabels
  | true => exact relabels.descend_matches lawful recorded

/-! ## Iterations -/

structure EndingRelabels (f : Nat → Nat) (seeds : List (Option Nat)) (left right : Ending α) : Prop where
  state : Relabels f seeds left.state right.state
  didConverge : right.didConverge = left.didConverge
  terminalState : right.terminalState = left.terminalState
  ofSeeds : right.ofSeeds = left.ofSeeds
  fresh : left.ofSeeds ≠ none → left.state.hierarchy.levels = #[]

inductive OutcomeRelabels (f : Nat → Nat) (seeds : List (Option Nat)) : Outcome α → Outcome α → Prop
  | ended {left right : Ending α} (relabels : EndingRelabels f seeds left right) :
      OutcomeRelabels f seeds (.ended left) (.ended right)
  | completed {left right : State α} (relabels : Relabels f seeds left right)
      (later : left.iteration ≠ 0) : OutcomeRelabels f seeds (.completed left) (.completed right)

theorem Relabels.weigh_matches (relabels : Relabels f seeds left right) (lawful : plan.sampler.Lawful)
    {measured : Option α}
    (fresh : left.Settled count → measured ≠ none → left.hierarchy.levels = #[]) :
    (weigh plan further (left, count, measured)).Matches (OutcomeRelabels f seeds)
      (weigh plan further (right, count, measured)) := by
  have recording := relabels.record_matches
  have modularities : right.modularities = left.modularities :=
    congrArg Tracker.modularities relabels.tracker
  have later (state : State α) (modularity : α) : (state.complete modularity).iteration ≠ 0 :=
    Nat.succ_ne_zero _
  unfold weigh
  dsimp only
  by_cases settled : left.Settled count
  · rw [if_pos settled, if_pos (relabels.settled_iff.mpr settled)]
    exact matches_bind_same fun _ _ =>
      matches_pure (.ended ⟨relabels, rfl, rfl, rfl, fresh settled⟩)
  · rw [if_neg settled, if_neg (relabels.settled_iff.not.mpr settled), modularities, relabels.iteration]
    cases Progress.of plan.config.tolerance left.modularities.back? (measured.getD 0) with
    | decreased =>
      exact matches_bind_same fun _ _ => matches_bind_same fun _ _ =>
        matches_pure (.ended ⟨relabels, rfl, rfl, rfl, fun none => absurd rfl none⟩)
    | slight =>
      refine recording.bind fun first second ⟨relabels, written⟩ _ _ => ?_
      exact matches_bind_same fun _ _ =>
        matches_pure (.ended ⟨relabels.complete _, rfl, rfl, rfl, fun none => absurd rfl none⟩)
    | substantial =>
      refine recording.bind fun first second ⟨relabels, written⟩ _ _ => ?_
      refine (relabels.descendFurther_matches lawful written).bind fun first second relabels _ _ => ?_
      exact matches_bind_same fun _ _ => matches_pure (.completed (relabels.complete _) (later _ _))

theorem Relabels.summary_eq (relabels : Relabels f seeds left right) (measured : Option α) :
    summary (right, count, measured) = summary (left, count, measured) := by
  unfold summary
  dsimp only
  rw [relabels.iteration, relabels.level]

theorem Relabels.iterate_matches (relabels : Relabels f seeds left right)
    (alike : SeededAlike left right) (fresh : left.iteration = 0 → left.hierarchy.levels = #[])
    (lawful : plan.sampler.Lawful) (limit : Nat) :
    (iterate plan limit left).Matches (EndingRelabels f seeds) (iterate plan limit right) := by
  induction limit generalizing left right with
  | zero => exact matches_pure ⟨relabels, rfl, rfl, rfl, fun none => absurd rfl none⟩
  | succ limit ih =>
    rw [iterate_succ, iterate_succ]
    refine (relabels.survey_matches alike).bind fun first second ⟨same, moved⟩ gives _ => ?_
    obtain ⟨moves, measured⟩ := survey_gives gives
    obtain ⟨leftMoved, found⟩ := first
    obtain ⟨rightMoved, count, modularity⟩ := second
    cases same
    have unmeasured : leftMoved.Settled count → modularity ≠ none →
        leftMoved.hierarchy.levels = #[] := by
      intro settled some
      obtain ⟨start, reached, -, -, shape⟩ := moves.passed
      dsimp only at shape measured
      rw [shape]
      apply fresh
      by_contra later
      have iteration : leftMoved.iteration ≠ 0 := by rwa [shape]
      exact some (measured.trans (if_neg (by simp [State.Measures, settled, iteration])))
    unfold conclude
    rw [moved.summary_eq, bind_assoc, bind_assoc]
    refine matches_bind_same fun _ _ => ?_
    refine (moved.weigh_matches lawful unmeasured).bind fun first second outcome _ _ => ?_
    cases outcome with
    | ended ends => exact matches_pure ends
    | completed relabels later => exact ih relabels (.inr later) (fun first => absurd first later)

omit [Scalar α] in
theorem EndingRelabels.corresponds {left right : Ending α} (relabels : EndingRelabels f seeds left right)
    {n : Nat} (length : seeds.length = n) :
    (left.result n).Corresponds (Seeding.Renames f seeds) (right.result n) := by
  obtain ⟨state, didConverge, terminalState, ofSeeds, fresh⟩ := relabels
  have current (none : left.state.hierarchy.levels = #[]) := state.current none length
  have tracker := state.tracker
  have levels := state.levels
  unfold Ending.result Hierarchy.current? Hierarchy.dendrogram?
  rw [ofSeeds]
  cases found : left.ofSeeds with
  | some modularity =>
    refine ⟨current (fresh (by simp [found])), .none, ?_⟩
    dsimp only
    rw [didConverge, terminalState]
  | none =>
    refine ⟨?_, ?_, ?_⟩
    · dsimp only
      exact levels.back?_getD current
    · dsimp only
      rw [state.keepAll]
      split
      · exact .some levels
      · exact .none
    · dsimp only
      rw [didConverge, terminalState, tracker]

end Search

end CommunityDetection
