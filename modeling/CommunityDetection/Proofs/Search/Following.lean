import CommunityDetection.Proofs.Search.Likeness
import CommunityDetection.Proofs.Search.State

/-!
# A search that follows another one

Of two states that are alike, the left one follows the right one if each of its root nodes leads where
another root node leads on the right. Then the left search does what the right one does, and its
levels are those of the right one, read at the other root nodes (`Follows.iterate_matches`).
-/

namespace CommunityDetection

def reread (root : Nat → Nat) (level : Array Nat) : Array Nat :=
  ((List.range level.size).map fun v => Assignment.of level (root v)).toArray

def Result.reread {α : Type} (root : Nat → Nat) (result : Result α) : Result α :=
  { result with
    communities := CommunityDetection.reread root result.communities
    dendrogram := result.dendrogram.map fun dendrogram =>
      ⟨dendrogram.levels.map (CommunityDetection.reread root)⟩ }

structure Result.Sized {α : Type} (n : Nat) (result : Result α) : Prop where
  communities : result.communities.size = n
  levels : ∀ dendrogram, result.dendrogram = some dendrogram →
    ∀ level ∈ dendrogram.levels, level.size = n

/-- Two root nodes have the same communities on all levels of a result. -/
structure Result.Alike {α : Type} (result : Result α) (u v : Nat) : Prop where
  communities : Assignment.of result.communities u = Assignment.of result.communities v
  levels : ∀ dendrogram, result.dendrogram = some dendrogram →
    ∀ level ∈ dendrogram.levels, Assignment.of level u = Assignment.of level v

theorem reread_eq_self_iff {root : Nat → Nat} {level : Array Nat} :
    reread root level = level ↔
      ∀ v < level.size, Assignment.of level v = Assignment.of level (root v) := by
  constructor
  · intro same v bound
    have entry := congrArg (fun level : Array Nat => Assignment.of level v) same
    rw [reread, Hierarchy.of_map_range _ bound] at entry
    exact entry.symm
  · intro same
    refine Array.ext (by simp [reread]) fun v _ bound => ?_
    have entry := same v bound
    simp only [reread, List.getElem_toArray, List.getElem_map, List.getElem_range]
    rw [← entry]
    simp [Assignment.of, bound]

theorem map_eq_self_iff {β : Type} {items : Array β} {f : β → β} :
    items.map f = items ↔ ∀ item ∈ items, f item = item := by
  constructor
  · intro same item member
    obtain ⟨i, bound, rfl⟩ := Array.mem_iff_getElem.mp member
    have entry := congrArg (fun items : Array β => items[i]?) same
    simpa [bound] using entry
  · intro each
    exact (Array.map_congr_left each).trans (Array.map_id' items)

theorem Result.reread_eq_self_iff {α : Type} {root : Nat → Nat} {n : Nat} {result : Result α}
    (sized : result.Sized n) :
    result.reread root = result ↔ ∀ v < n, result.Alike v (root v) := by
  have parts : result.reread root = result ↔
      CommunityDetection.reread root result.communities = result.communities ∧
        ∀ dendrogram, result.dendrogram = some dendrogram →
          ∀ level ∈ dendrogram.levels, CommunityDetection.reread root level = level := by
    obtain ⟨communities, iterations, didConverge, terminalState, dendrogram, modularities, modularity⟩ := result
    simp only [Result.reread, Result.mk.injEq, true_and, and_true]
    refine and_congr_right fun _ => ?_
    cases dendrogram with
    | none => simp
    | some dendrogram =>
      simp only [Option.map_some, Option.some.injEq, forall_eq']
      rw [← map_eq_self_iff]
      exact ⟨congrArg Dendrogram.levels, congrArg Dendrogram.mk⟩
  rw [parts, CommunityDetection.reread_eq_self_iff, sized.communities]
  constructor
  · rintro ⟨communities, levels⟩ v bound
    refine ⟨communities v bound, fun dendrogram kept level member => ?_⟩
    have same := levels dendrogram kept level member
    rw [CommunityDetection.reread_eq_self_iff, sized.levels dendrogram kept level member] at same
    exact same v bound
  · intro alike
    refine ⟨fun v bound => (alike v bound).communities, fun dendrogram kept level member => ?_⟩
    rw [CommunityDetection.reread_eq_self_iff, sized.levels dendrogram kept level member]
    exact fun v bound => (alike v bound).levels dendrogram kept level member

namespace Search

open Session

variable {σ α : Type} {G : Graph α} {root : Nat → Nat} {left right : State α}

/-- Every root node of the left state leads where its own `root` leads in the right state. -/
structure Follows (G : Graph α) (root : Nat → Nat) (left right : State α) : Prop
    extends Alike left right where
  anchored : Anchored G right
  size : left.hierarchy.chain.size = G.nodeCount
  leads : left.hierarchy.Leads left.level.graph fun v => right.part (root v)
  keepAll : left.hierarchy.keepAll = right.hierarchy.keepAll
  levels : left.hierarchy.levels = right.hierarchy.levels.map (reread root)
  sized : ∀ level ∈ right.hierarchy.levels, level.size = G.nodeCount

structure State.Recorded (state : State α) : Prop where
  levels : state.hierarchy.levels ≠ #[]
  later : state.iteration ≠ 0

theorem Follows.complete (follows : Follows G root left right) (modularity : α) :
    Follows G root (left.complete modularity) (right.complete modularity) :=
  ⟨⟨follows.level, follows.seeding, congrArg (Tracker.complete · modularity) follows.tracker⟩,
    follows.anchored.complete modularity, follows.size, follows.leads, follows.keepAll,
    follows.levels, follows.sized⟩

def State.push (state : State α) (level : Array Nat) : State α :=
  { state with hierarchy := state.hierarchy.push level }

theorem record_of_leads {part : Nat → Nat} (leads : left.hierarchy.Leads left.level.graph part) :
    left.record =
      .ok (left.push (left.hierarchy.levelOf part left.level.assignment left.seeding)) := by
  rw [State.record, Hierarchy.record_of_leads leads]
  rfl

theorem levels_push_ne (level : Array Nat) : (left.push level).hierarchy.levels ≠ #[] := by
  unfold State.push Hierarchy.push
  dsimp only
  split
  · exact Array.push_ne_empty
  · nofun

theorem Follows.push (follows : Follows G root left right) {level : Array Nat}
    (size : level.size = G.nodeCount) :
    Follows G root (left.push (reread root level)) (right.push level) := by
  refine ⟨⟨follows.level, follows.seeding, follows.tracker⟩, ⟨follows.anchored.formed,
    follows.anchored.size, follows.anchored.leads, follows.anchored.condenses,
    follows.anchored.separates⟩, follows.size, follows.leads, follows.keepAll, ?_, ?_⟩
  · unfold State.push Hierarchy.push
    dsimp only
    rw [follows.keepAll, follows.levels]
    split
    · exact Array.map_push.symm
    · simp
  · intro other member
    unfold State.push Hierarchy.push at member
    dsimp only at member
    split at member
    · rcases Array.mem_push.mp member with earlier | rfl
      · exact follows.sized other earlier
      · exact size
    · rw [Array.mem_singleton.mp member]
      exact size

theorem Anchored.size_levelOf (anchored : Anchored G right) :
    (right.hierarchy.levelOf right.part right.level.assignment right.seeding).size =
      G.nodeCount := by
  simp [Hierarchy.levelOf, anchored.size]

theorem Follows.levelOf_eq (follows : Follows G root left right)
    (within : ∀ v < G.nodeCount, root v < G.nodeCount) :
    left.hierarchy.levelOf (fun v => right.part (root v)) left.level.assignment left.seeding =
      reread root (right.hierarchy.levelOf right.part right.level.assignment right.seeding) := by
  rw [reread, follows.anchored.size_levelOf, Hierarchy.levelOf, follows.size, Level.assignment_congr follows.level,
    follows.seeding]
  refine congrArg List.toArray (List.map_congr_left fun v inRange => ?_)
  exact (follows.anchored.held.of_levelOf (within v (List.mem_range.mp inRange))).symm

theorem Follows.record_matches (follows : Follows G root left right)
    (within : ∀ v < G.nodeCount, root v < G.nodeCount) :
    (Session.ofExcept left.record).Matches
      (fun first second => Follows G root first second ∧ second.hierarchy.levels ≠ #[])
      (Session.ofExcept right.record) := by
  rw [record_of_leads follows.leads, record_of_leads follows.anchored.leads,
    follows.levelOf_eq within]
  exact matches_ofExcept ⟨follows.push follows.anchored.size_levelOf, levels_push_ne _⟩

variable [Scalar α] {plan : Plan σ α} {further : Bool} {leftNext rightNext : State α}

theorem Follows.descends (follows : Follows G root left right) (closed : G.Closed)
    (within : ∀ v < G.nodeCount, root v < G.nodeCount) (lawful : plan.sampler.Lawful)
    (first : Descends plan left leftNext) (second : Descends plan right rightNext) :
    Follows G root leftNext rightNext ∧ rightNext.hierarchy.levels = right.hierarchy.levels := by
  have anchored := follows.anchored.descend closed lawful second
  have refined := follows.refined_eq plan
  cases first with
  | intro firstFollows =>
    cases second with
    | intro secondFollows =>
      rw [Hierarchy.descend_of_leads follows.leads] at firstFollows
      rw [Hierarchy.descend_of_leads follows.anchored.leads] at secondFollows
      cases firstFollows
      cases secondFollows
      have level : left.level.coarsen (Search.refined plan left) =
          right.level.coarsen (Search.refined plan right) := by
        rw [refined]
        exact Level.coarsen_congr follows.level _
      refine ⟨⟨⟨congrArg Level.bare level, ?_, follows.tracker⟩, anchored, ?_, ?_,
        follows.keepAll, follows.levels, follows.sized⟩, rfl⟩
      · dsimp only
        rw [level, follows.seeding, Level.assignment_congr follows.level]
      · simp [follows.size]
      · intro v bound
        have bound : v < G.nodeCount := by simpa [follows.size] using bound
        have bounded := within v bound
        have leads := anchored.leads (root v) (bounded.trans_eq anchored.size.symm)
        dsimp only at leads ⊢
        rw [Hierarchy.of_map_range _ (bounded.trans_eq follows.anchored.size.symm)] at leads
        rw [Hierarchy.of_map_range _ (bound.trans_eq follows.size.symm), level, refined]
        exact leads

theorem Follows.descend_matches (follows : Follows G root left right) :
    (descend plan left).Matches (fun _ _ => True) (descend plan right) := by
  have refined := follows.refined_eq plan
  have refines : (refine plan left).Matches (fun first second => first.2 = second.2)
      (refine plan right) := by
    refine Matches.stage ?_ _
    dsimp only
    rw [Level.nodeCount_congr follows.level, Hierarchy.descend_of_leads follows.leads,
      Hierarchy.descend_of_leads follows.anchored.leads]
    exact matches_bind_same fun _ _ => (matches_ofExcept trivial).bind fun _ _ (_ : True) _ _ =>
      matches_pure refined
  refine refines.bind fun first second same _ _ => ?_
  obtain ⟨hierarchy, parts⟩ := first
  obtain ⟨hierarchy', parts'⟩ := second
  cases same
  refine Matches.stage ?_ _
  dsimp only
  rw [Level.nodeCount_congr follows.level, Level.coarsen_congr follows.level]
  exact matches_bind_same fun _ _ => matches_bind_same fun _ _ => matches_pure trivial

theorem Follows.descendFurther_matches (follows : Follows G root left right) (closed : G.Closed)
    (within : ∀ v < G.nodeCount, root v < G.nodeCount) (lawful : plan.sampler.Lawful) :
    (descendFurther plan further left).Matches (fun first second => Follows G root first second ∧
      second.hierarchy.levels = right.hierarchy.levels) (descendFurther plan further right) := by
  cases further with
  | false => exact matches_pure ⟨follows, rfl⟩
  | true =>
    refine follows.descend_matches.of_gives fun first second _ givesFirst givesSecond => ?_
    exact follows.descends closed within lawful (descend_gives givesFirst) (descend_gives givesSecond)

structure EndingFollows (G : Graph α) (root : Nat → Nat) (left right : Ending α) : Prop where
  state : Follows G root left.state right.state
  recorded : right.state.hierarchy.levels ≠ #[]
  didConverge : left.didConverge = right.didConverge
  terminalState : left.terminalState = right.terminalState
  leftSeeds : left.ofSeeds = none
  rightSeeds : right.ofSeeds = none

inductive OutcomeFollows (G : Graph α) (root : Nat → Nat) : Outcome α → Outcome α → Prop
  | ended {left right : Ending α} (follows : EndingFollows G root left right) :
      OutcomeFollows G root (.ended left) (.ended right)
  | completed {left right : State α} (follows : Follows G root left right)
      (recorded : right.Recorded) :
      OutcomeFollows G root (.completed left) (.completed right)

theorem Follows.weigh_matches (follows : Follows G root left right) (closed : G.Closed)
    (within : ∀ v < G.nodeCount, root v < G.nodeCount) (lawful : plan.sampler.Lawful)
    {count : Nat} {measured : Option α}
    (records : right.Settled count → right.hierarchy.levels ≠ #[] ∧ measured = none)
    (earlier : right.modularities ≠ #[] → right.hierarchy.levels ≠ #[]) :
    (weigh plan further (left, count, measured)).Matches (OutcomeFollows G root)
      (weigh plan further (right, count, measured)) := by
  have recording := follows.record_matches within
  unfold weigh
  dsimp only
  by_cases settled : right.Settled count
  · obtain ⟨recorded, rfl⟩ := records settled
    rw [if_pos settled, if_pos (follows.settled_iff.mpr settled)]
    exact matches_bind_same fun _ _ => matches_pure (.ended ⟨follows, recorded, rfl, rfl, rfl, rfl⟩)
  · rw [if_neg settled, if_neg (follows.settled_iff.not.mpr settled), follows.modularities,
      follows.iteration]
    cases progress : Progress.of plan.config.tolerance right.modularities.back? (measured.getD 0) with
    | decreased =>
      have previous : right.modularities ≠ #[] := by
        intro none
        rw [none] at progress
        cases progress
      exact matches_bind_same fun _ _ => matches_bind_same fun _ _ =>
        matches_pure (.ended ⟨follows, earlier previous, rfl, rfl, rfl, rfl⟩)
    | slight =>
      refine recording.bind fun first second ⟨follows, written⟩ _ _ => ?_
      exact matches_bind_same fun _ _ => 
        matches_pure (.ended ⟨follows.complete _, written, rfl, rfl, rfl, rfl⟩)
    | substantial =>
      refine recording.bind fun first second ⟨follows, written⟩ _ _ => ?_
      refine (follows.descendFurther_matches closed within lawful).bind
        fun first second ⟨follows, same⟩ _ _ => ?_
      refine matches_bind_same fun _ _ => matches_pure (.completed (follows.complete _) ⟨?_, ?_⟩)
      · exact same ▸ written
      · simp [State.complete, Tracker.complete]

theorem Follows.moved (follows : Follows G root left right) {count : Nat}
    {leftMoved rightMoved : State α} (moves : Moves plan right count rightMoved)
    (moved : MovedAlike left right leftMoved rightMoved) : Follows G root leftMoved rightMoved := by
  have anchored := follows.anchored.move moves
  obtain ⟨start, reached, -, -, rfl⟩ := moves.passed
  refine ⟨moved.alike, anchored, ?_, ?_, ?_, ?_, follows.sized⟩
  · rw [moved.hierarchy]
    exact follows.size
  · rw [moved.hierarchy, moved.graph]
    exact follows.leads
  · rw [moved.hierarchy]
    exact follows.keepAll
  · rw [moved.hierarchy]
    exact follows.levels

theorem Follows.iterate_matches (follows : Follows G root left right) (recorded : right.Recorded)
    (closed : G.Closed) (within : ∀ v < G.nodeCount, root v < G.nodeCount)
    (lawful : plan.sampler.Lawful) (limit : Nat) :
    (iterate plan limit left).Matches (EndingFollows G root) (iterate plan limit right) := by
  induction limit generalizing left right with
  | zero => exact matches_pure ⟨follows, recorded.levels, rfl, rfl, rfl, rfl⟩
  | succ limit ih =>
    rw [iterate_succ, iterate_succ]
    refine follows.survey_matches.bind fun first second ⟨same, moved⟩ _ gives => ?_
    obtain ⟨moves, measured⟩ := survey_gives gives
    have next := follows.moved moves moved
    obtain ⟨start, reached, -, -, shape⟩ := moves.passed
    have levels : second.1.hierarchy.levels ≠ #[] := by
      rw [shape]
      exact recorded.levels
    have unmeasured : second.1.Settled second.2.1 → second.2.2 = none := by
      intro settled
      have later : second.1.iteration ≠ 0 := by
        rw [shape]
        exact recorded.later
      rw [measured]
      exact if_neg (by simp [State.Measures, settled, later])
    obtain ⟨leftMoved, found⟩ := first
    obtain ⟨rightMoved, count, modularity⟩ := second
    cases same
    unfold conclude
    rw [next.summary_eq, bind_assoc, bind_assoc]
    refine matches_bind_same fun _ _ => ?_
    refine (next.weigh_matches closed within lawful (fun settled => ⟨levels, unmeasured settled⟩)
      (fun _ => levels)).bind fun first second outcome _ _ => ?_
    cases outcome with
    | ended ends => exact matches_pure ends
    | completed follows recorded => exact ih follows recorded

omit [Scalar α] in
theorem EndingFollows.result_eq {left right : Ending α} (follows : EndingFollows G root left right)
    (n : Nat) : left.result n = (right.result n).reread root := by
  obtain ⟨state, recorded, didConverge, terminalState, leftSeeds, rightSeeds⟩ := follows
  have iteration := state.iteration
  unfold Ending.result Result.reread Hierarchy.current? Hierarchy.dendrogram?
  rw [leftSeeds, rightSeeds]
  dsimp only
  rw [iteration, didConverge, terminalState, state.modularities, state.latest, state.keepAll, state.levels]
  cases last : right.state.hierarchy.levels.back? with
  | none => exact absurd (Array.back?_eq_none_iff.mp last) recorded
  | some level =>
    rw [Array.back?_map, last]
    cases right.state.hierarchy.keepAll with
    | true => rfl
    | false => rfl

omit [Scalar α] in
theorem EndingFollows.sized {left right : Ending α} (follows : EndingFollows G root left right)
    (n : Nat) : (right.result n).Sized G.nodeCount := by
  obtain ⟨state, recorded, -, -, -, rightSeeds⟩ := follows
  unfold Ending.result Hierarchy.current? Hierarchy.dendrogram?
  rw [rightSeeds]
  constructor
  · dsimp only
    cases last : right.state.hierarchy.levels.back? with
    | none => exact absurd (Array.back?_eq_none_iff.mp last) recorded
    | some level => exact state.sized level (Array.mem_of_back? last)
  · intro dendrogram kept level member
    dsimp only at kept
    split at kept
    · cases kept
      exact state.sized level member
    · cases kept

end Search

end CommunityDetection
