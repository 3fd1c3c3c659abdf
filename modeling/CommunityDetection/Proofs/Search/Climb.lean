import CommunityDetection.Proofs.Search.Workers

/-!
# Modularity grows from iteration to iteration

In exact arithmetic the quality of a partition of the current level is the quality of the partition
that it induces on the root graph (`Balanced`). The way down keeps it, so every measured modularity is that
of the level recorded with it. Moves of nodes one after another raise it, and where all visits are made so,
every modularity exceeds the one before (`Ledger`).
-/

namespace CommunityDetection.Search

variable {σ K : Type} [Field K] [LinearOrder K] {G : Graph K} {volume : Nat → K}
  {state moved recorded next : State K} {plan : Plan σ K} {count : Nat} {ending : Ending K}
  {sequential : Prop}

/-! ## Quality on the root graph -/

/-- Weights and volumes of the current level are sums over the root graph. -/
structure Balanced (G : Graph K) (volume : Nat → K) (state : State K) : Prop where
  anchored : Anchored G state
  weighed : state.level.Weighed
  merges : Merges G.nodeCount state.level.graph.nodeCount state.part G.weight
    state.level.graph.weight volume state.level.volumes.nodes.read

theorem Balanced.quality_eq (balanced : Balanced G volume state) (gamma : K) :
    state.level.quality gamma = quality G.nodeCount G.weight volume gamma state.community :=
  balanced.merges.quality_pullback _

theorem Balanced.modularity_eq (balanced : Balanced G volume state) (plan : Plan σ K) :
    state.modularity plan = plan.scale.coefficient * state.level.quality plan.scale.gamma :=
  Level.modularity_eq balanced.anchored.formed balanced.weighed _ _

theorem Balanced.record (balanced : Balanced G volume moved) (records : moved.record = .ok recorded) :
    Balanced G volume recorded := by
  have anchored := balanced.anchored.record records
  rw [record_ok records] at anchored ⊢
  exact ⟨anchored, balanced.weighed, balanced.merges⟩

theorem Balanced.complete (balanced : Balanced G volume state) (modularity : K) :
    Balanced G volume (state.complete modularity) :=
  ⟨balanced.anchored.complete modularity, balanced.weighed, balanced.merges⟩

theorem Balanced.descend (balanced : Balanced G volume state) (closed : G.Closed)
    (lawful : plan.sampler.Lawful) (descends : Descends plan state next) :
    Balanced G volume next ∧
      next.level.quality plan.scale.gamma = state.level.quality plan.scale.gamma := by
  have anchored := balanced.anchored
  have formed := anchored.formed
  have refines := refines_refined plan formed.closed lawful
  obtain ⟨level, -⟩ := anchored.held.descends lawful descends
  have merges := balanced.merges.trans (Level.merges_coarsen plan.scale plan.config.concurrency
    formed.closed balanced.weighed.volumes.size_nodes lawful (plan.sampler.start state.iteration))
  refine ⟨⟨anchored.descend closed lawful descends, ?_, ?_⟩, ?_⟩
  · rw [level]
    exact balanced.weighed.coarsen formed refines
  · rw [level]
    exact merges.congr (anchored.held.comp_part_descends lawful descends)
  · rw [level]
    exact Level.quality_coarsen formed balanced.weighed lawful _ _

/-! ## Measured modularities -/

/-- Each modularity so far is that of the level recorded with it, and where visits are `sequential`, they
grow up to that of the current partition. -/
structure Ledger (sequential : Prop) (G : Graph K) (volume : Nat → K) (scale : Scale K)
    (modularities : Array K) (hierarchy : Hierarchy) (current : K) : Prop where
  increasing : sequential → modularities.toList.IsChain (· < ·)
  last : ∀ modularity ∈ modularities.back?, modularity = scale.coefficient * current
  sized : ∀ level ∈ hierarchy.levels, level.size = G.nodeCount
  aligned : hierarchy.keepAll = true → hierarchy.levels.size = modularities.size
  measured : hierarchy.keepAll = true → ∀ (i : Nat) level, hierarchy.levels[i]? = some level →
    modularities[i]? = some (scale.coefficient *
      quality G.nodeCount G.weight volume scale.gamma (Assignment.of level))

theorem ledger_start (sequential : Prop) (G : Graph K) (volume : Nat → K) (scale : Scale K) (n : Nat)
    (keepAll : Bool) (current : K) : Ledger sequential G volume scale #[] (.start n keepAll) current := by
  refine ⟨fun _ => .nil, fun _ none => ?_, fun level member => ?_, fun _ => rfl, fun _ i level found => ?_⟩
  · cases none
  · simp [Hierarchy.start] at member
  · simp [Hierarchy.start] at found

theorem Ledger.chain {scale : Scale K} {modularities : Array K} {hierarchy : Hierarchy} {current : K}
    (ledger : Ledger sequential G volume scale modularities hierarchy current) (chain : Array Nat) :
    Ledger sequential G volume scale modularities { hierarchy with chain } current :=
  ⟨ledger.increasing, ledger.last, ledger.sized, ledger.aligned, ledger.measured⟩

variable [IsStrictOrderedRing K]

theorem Balanced.move (balanced : Balanced G volume state) (moves : Moves plan state count moved) :
    Balanced G volume moved := by
  have anchored := balanced.anchored.move moves
  obtain ⟨start, reached, starts, ⟨_, passed⟩, rfl⟩ := moves.passed
  exact ⟨anchored, balanced.weighed.moved balanced.anchored.formed starts passed, balanced.merges⟩

theorem Balanced.quality_lt (balanced : Balanced G volume state) (moves : Moves plan state count moved)
    (sequential : (state.moveSetting plan).Sequential) (moving : count ≠ 0) :
    state.level.quality plan.scale.gamma < moved.level.quality plan.scale.gamma := by
  cases moves with
  | intro starts settled =>
    exact Level.quality_lt_moved balanced.anchored.formed balanced.weighed starts
      (LocalMove.run_trail sequential settled) moving

theorem Step.balanced {further : Bool} (step : Step plan further state (.completed next))
    (closed : G.Closed) (lawful : plan.sampler.Lawful) (balanced : Balanced G volume state) :
    Balanced G volume next := by
  cases step with
  | last moves _ _ records => exact ((balanced.move moves).record records).complete _
  | descended moves _ _ records _ descends =>
    exact (((balanced.move moves).record records).descend closed lawful descends).1.complete _

theorem Ledger.push {scale : Scale K} {modularities : Array K} {hierarchy : Hierarchy}
    {before after : K} (ledger : Ledger sequential G volume scale modularities hierarchy before)
    (positive : 0 < scale.coefficient) (raised : sequential → before < after) {level : Array Nat}
    (size : level.size = G.nodeCount)
    (quality_eq : quality G.nodeCount G.weight volume scale.gamma (Assignment.of level) = after) :
    Ledger sequential G volume scale (modularities.push (scale.coefficient * after)) (hierarchy.push level)
      after := by
  refine ⟨fun holds => ?_, fun modularity last => ?_, fun other member => ?_, fun keeps => ?_,
    fun keeps i other found => ?_⟩
  · rw [Array.toList_push, List.isChain_append]
    refine ⟨ledger.increasing holds, .singleton _, fun previous last next head => ?_⟩
    rw [Array.getLast?_toList] at last
    cases head
    rw [ledger.last previous last]
    exact mul_lt_mul_of_pos_left (raised holds) positive
  · rw [Array.back?_push] at last
    cases last
    rfl
  · unfold Hierarchy.push at member
    dsimp only at member
    split at member
    · rcases Array.mem_push.mp member with earlier | rfl
      · exact ledger.sized other earlier
      · exact size
    · rw [Array.mem_singleton.mp member]
      exact size
  · have kept : hierarchy.keepAll = true := keeps
    simp only [Hierarchy.push, kept, if_true, Array.size_push, ledger.aligned kept]
  · -- Levels and modularities are pushed together, so the new level meets the new modularity.
    have kept : hierarchy.keepAll = true := keeps
    simp only [Hierarchy.push, kept, if_true] at found
    rw [Array.getElem?_push, ledger.aligned kept] at found
    rw [Array.getElem?_push]
    by_cases last : i = modularities.size
    · rw [if_pos last] at found ⊢
      cases found
      rw [quality_eq]
    · rw [if_neg last] at found ⊢
      exact ledger.measured kept i other found

/-- On a level with no more nodes than the graph, with the modularities so far. -/
structure Climbing (plan : Plan σ K) (G : Graph K) (volume : Nat → K) (state : State K) : Prop where
  balanced : Balanced G volume state
  few : state.level.graph.nodeCount ≤ G.nodeCount
  ledger : Ledger (plan.Sequential G.nodeCount) G volume plan.scale state.modularities state.hierarchy
    (state.level.quality plan.scale.gamma)

theorem Climbing.raised (climbing : Climbing plan G volume state) (moves : Moves plan state count moved)
    (unsettled : ¬moved.Settled count) (sequential : plan.Sequential G.nodeCount) :
    state.level.quality plan.scale.gamma < moved.level.quality plan.scale.gamma :=
  climbing.balanced.quality_lt moves (sequential.moveSetting climbing.few) fun none => unsettled (.inl none)

theorem Climbing.push (climbing : Climbing plan G volume state)
    (positive : 0 < plan.scale.coefficient) (moves : Moves plan state count moved)
    (unsettled : ¬moved.Settled count) (records : moved.record = .ok recorded) :
    Ledger (plan.Sequential G.nodeCount) G volume plan.scale
      (recorded.modularities.push (moved.modularity plan)) recorded.hierarchy
      (recorded.level.quality plan.scale.gamma) := by
  have balanced := climbing.balanced.move moves
  have recordedQuality : quality G.nodeCount G.weight volume plan.scale.gamma
      (Assignment.of (moved.hierarchy.levelOf moved.part moved.level.assignment moved.seeding)) =
        moved.level.quality plan.scale.gamma := by
    rw [balanced.quality_eq]
    exact quality_congr fun u bound v bounded => balanced.anchored.held.levelOf_same_iff bound bounded
  have kept : moved.modularities = state.modularities ∧ moved.hierarchy = state.hierarchy := by
    obtain ⟨start, reached, -, -, rfl⟩ := moves.passed
    exact ⟨rfl, rfl⟩
  rw [record_ok records, balanced.modularity_eq plan, kept.1]
  dsimp only
  have size : (moved.hierarchy.levelOf moved.part moved.level.assignment moved.seeding).size =
      G.nodeCount := by
    simp [Hierarchy.levelOf, balanced.anchored.size]
  have pushed := climbing.ledger.push positive (climbing.raised moves unsettled) size recordedQuality
  rwa [← kept.2] at pushed

theorem Step.climbing {further : Bool} (step : Step plan further state (.completed next))
    (closed : G.Closed) (lawful : plan.sampler.Lawful) (positive : 0 < plan.scale.coefficient)
    (climbing : Climbing plan G volume state) : Climbing plan G volume next := by
  have few := step.nodeCount_le.trans climbing.few
  cases step with
  | last moves unsettled _ records _ =>
    have balanced := climbing.balanced.move moves
    exact ⟨(balanced.record records).complete _, few, climbing.push positive moves unsettled records⟩
  | @descended _ _ below _ moves unsettled _ records _ descends =>
    have recorded := (climbing.balanced.move moves).record records
    obtain ⟨balanced, same⟩ := recorded.descend closed lawful descends
    have pushed := climbing.push positive moves unsettled records
    obtain ⟨-, -, modularities, hierarchy, -⟩ := recorded.anchored.held.descends lawful descends
    refine ⟨balanced.complete _, few, ?_⟩
    rw [← same, ← modularities] at pushed
    have levels := pushed.chain below.hierarchy.chain
    rwa [← hierarchy] at levels

theorem Step.ended {further : Bool} (step : Step plan further state (.ended ending))
    (positive : 0 < plan.scale.coefficient) (climbing : Climbing plan G volume state) :
    (plan.Sequential G.nodeCount → ending.terminalState ≠ .toleranceExhausted) ∧ ∃ current,
      Ledger (plan.Sequential G.nodeCount) G volume plan.scale ending.state.modularities
        ending.state.hierarchy current := by
  have moved_ledger {moved : State K} {count : Nat} (moves : Moves plan state count moved) :
      Ledger (plan.Sequential G.nodeCount) G volume plan.scale moved.modularities moved.hierarchy
        (state.level.quality plan.scale.gamma) := by
    obtain ⟨start, reached, -, -, rfl⟩ := moves.passed
    exact climbing.ledger
  cases step with
  | settled moves _ => exact ⟨by simp, _, moved_ledger moves⟩
  | @decreased moved _ moves unsettled progress =>
    refine ⟨fun sequential => ?_, _, moved_ledger moves⟩
    -- The modularity would have to be below the one before, but moves only raise it.
    have better := climbing.raised moves unsettled sequential
    rw [State.progress, (climbing.balanced.move moves).modularity_eq plan] at progress
    cases before : moved.modularities.back? with
    | none =>
      rw [before] at progress
      cases progress
    | some previous =>
      have last := (moved_ledger moves).last previous before
      have grown : ¬plan.scale.coefficient * moved.level.quality plan.scale.gamma - previous < 0 := by
        rw [last, ← mul_sub]
        exact (mul_pos positive (sub_pos.mpr better)).le.not_gt
      rw [before, Progress.of] at progress
      rw [if_neg grown] at progress
      split at progress <;> cases progress
  | slight moves unsettled _ records =>
    exact ⟨by simp, _, climbing.push positive moves unsettled records⟩

end CommunityDetection.Search
