import CommunityDetection.Proofs.Naming
import CommunityDetection.Proofs.Search.Determined
import CommunityDetection.Proofs.Search.Rooted

/-!
# Output ids throughout a search

In every state of a search the communities have different output ids, each the label of the community
or an id above all labels (`Named`). Recorded levels and returned communities show the communities of
root nodes by these ids (`output_ids`).
-/

namespace CommunityDetection

namespace Search

variable {σ α : Type} {G : Graph α} {seeds : Option (Array (Option Nat))}
  {start state moved recorded next : State α} {count : Nat} {merged : Nat → Nat}

/-- The communities of a state and their output ids, in a search over `n` nodes from the given seeds or
from none. -/
structure Named (seeds : Option (Array (Option Nat))) (n : Nat) (state : State α) : Prop where
  injective : ∀ a < state.level.graph.nodeCount, ∀ b < state.level.graph.nodeCount,
    state.seeding.outputId (state.level.assignment.of a) =
      state.seeding.outputId (state.level.assignment.of b) →
        state.level.assignment.of a = state.level.assignment.of b
  unseeded : seeds = none → ∀ community, state.seeding.outputId community = community
  labelled : ∀ community label, state.seeding.label? community = some label →
    state.seeding.outputId community = label ∧ ∃ given, seeds = some given ∧ some label ∈ given.toList
  distinct : ∀ c d label, state.seeding.label? c = some label → state.seeding.label? d = some label →
    c = d
  unlabelled : ∀ given, seeds = some given → ∀ a < state.level.graph.nodeCount,
    state.seeding.label? (state.level.assignment.of a) = none →
      Seeding.Unlabelled given.toList n state.seeding (state.level.assignment.of a)

def State.Stems (state : State α) (seeds : Option (Array (Option Nat))) : Prop :=
  Seeding.Stems state.level.assignment state.level.graph.nodeCount seeds state.seeding

theorem Rooted.nodeCount_le (rooted : Rooted G state merged) :
    state.level.graph.nodeCount ≤ G.nodeCount := by
  have onto : Set.SurjOn merged (Finset.range G.nodeCount)
      (Finset.range state.level.graph.nodeCount) := by
    intro a inRange
    obtain ⟨v, bound, rfl⟩ := rooted.onto a (Finset.mem_range.mp inRange)
    exact ⟨v, Finset.mem_range.mpr bound, rfl⟩
  simpa using Finset.card_le_card_of_surjOn merged onto

theorem Rooted.named (rooted : Rooted G state merged) (stems : state.Stems seeds)
    (sized : ∀ given, seeds = some given → given.size = G.nodeCount) :
    Named seeds G.nodeCount state := by
  have within := rooted.ready.within
  have few := rooted.nodeCount_le
  have injective : ∀ a < state.level.graph.nodeCount, ∀ b < state.level.graph.nodeCount, _ :=
    fun a bound b bounded => rooted.separates.injective within bound bounded
  obtain ⟨tracker, level, seeding, hierarchy⟩ := state
  cases stems with
  | unseeded => exact ⟨injective, fun _ _ => rfl, nofun, nofun, nofun⟩
  | @seeded given labels offset count keyed =>
    refine ⟨injective, nofun, fun community label found => ?_, keyed.injective,
      fun _ same a bound none => ?_⟩
    · have shown : Seeding.outputId (.seeded labels offset count) community = label := by
        have found : labels.lookup community = some label := found
        simp only [Seeding.outputId, found]
      exact ⟨shown, given, rfl, keyed.listed community label found⟩
    · cases same
      have length : given.toList.length = G.nodeCount := by rw [Array.length_toList, sized given rfl]
      exact keyed.unlabelled length few within bound none

variable [Scalar α] {plan : Plan σ α}

theorem State.Stems.move (stems : state.Stems seeds) (ready : state.level.Ready)
    (moves : Moves plan state count moved) : moved.Stems seeds := by
  obtain ⟨start, reached, starts, ⟨_, passed⟩, rfl⟩ := moves.passed
  have same := (Level.moveStart_ok starts).1
  apply Seeding.Stems.drawn stems
  rw [← same]
  exact passed.drawn ready.closed (same ▸ ready.within.size)

theorem State.Stems.descend (stems : state.Stems seeds) (held : Held G state)
    (lawful : plan.sampler.Lawful) (descends : Descends plan state next) : next.Stems seeds := by
  have refines := refines_refined plan held.closed lawful
  have carried := Coarsening.carried_handover (state.level.coarsen (refined plan state)).graph
    state.level.assignment (refined plan state).volumes
  obtain ⟨level, seeding, -⟩ := held.descends lawful descends
  unfold State.Stems
  rw [seeding, level]
  apply Seeding.Stems.carry stems carried.size
  · exact fun i bound j bounded => carried.same_iff bound bounded
  · intro node bound
    obtain ⟨u, inside, rfl⟩ := Coarsening.exists_merged state.level.graph refines.covers bound
    exact ⟨u, inside, Level.origin_part refines inside⟩

theorem Reached.stems (reached : Reached plan start state merged) (lawful : plan.sampler.Lawful)
    (located : G.Located) (rooted : Rooted G start id) (stems : start.Stems seeds) :
    state.Stems seeds := by
  induction reached with
  | start => exact stems
  | @descended _ moved recorded next _ _ before descent ih =>
    have after := (before.rooted lawful rooted).move descent.moves
    have held := (after.held located (leads_of_record descent.records)).record descent.records
    have stems := ih.move (before.rooted lawful rooted).ready descent.moves
    have recordedStems : recorded.Stems seeds := by
      rw [record_ok descent.records]
      exact stems
    have below : next.Stems seeds := recordedStems.descend held lawful descent.descends
    exact below

/-! ## Levels -/

/-- A level shows the communities of a state by their output ids, that of a root node at the node that
`part` gives for it. -/
structure Outputs (G : Graph α) (state : State α) (part : Nat → Nat) (level : Array Nat) : Prop where
  size : level.size = G.nodeCount
  part_lt : ∀ u < G.nodeCount, part u < state.level.graph.nodeCount
  of_eq : ∀ u < G.nodeCount, Assignment.of level u =
    state.seeding.outputId (state.level.assignment.of (part u))
  same_iff : ∀ u < G.nodeCount, ∀ v < G.nodeCount, (Assignment.of level u = Assignment.of level v ↔
    state.level.assignment.of (part u) = state.level.assignment.of (part v))

omit [Scalar α] in
theorem Named.outputs {n : Nat} (named : Named seeds n state) {part : Nat → Nat} {level : Array Nat}
    (size : level.size = G.nodeCount)
    (part_lt : ∀ u < G.nodeCount, part u < state.level.graph.nodeCount)
    (of_eq : ∀ u < G.nodeCount, Assignment.of level u =
      state.seeding.outputId (state.level.assignment.of (part u))) : Outputs G state part level := by
  refine ⟨size, part_lt, of_eq, fun u bound v bounded => ?_⟩
  rw [of_eq u bound, of_eq v bounded]
  constructor
  · exact named.injective _ (part_lt u bound) _ (part_lt v bounded)
  · exact congrArg state.seeding.outputId

omit [Scalar α] in
theorem Held.outputs {n : Nat} (held : Held G moved) (named : Named seeds n moved)
    (records : moved.record = .ok recorded) {level : Array Nat}
    (last : recorded.hierarchy.current? = some level) : Outputs G moved moved.part level := by
  rw [record_ok records, Hierarchy.current?_push, Option.some_inj] at last
  subst last
  exact named.outputs (by simp [Hierarchy.levelOf, held.size]) held.part_lt
    fun u bound => held.of_levelOf bound

/-! ## Nothing recorded -/

theorem Closes.iteration_of_ofSeeds {limit : Nat} {ending : Ending α}
    (closes : Closes plan limit state ending) (seeds : ending.ofSeeds ≠ none) :
    ending.state.iteration = 0 := by
  cases closes with
  | spent => exact absurd rfl seeds
  | stopped _ step =>
    cases step with
    | settled =>
      by_contra later
      exact seeds (if_neg fun first => later first.2)
    | decreased => exact absurd rfl seeds
    | slight => exact absurd rfl seeds

theorem Closes.moves_of_first {limit : Nat} {ending : Ending α}
    (closes : Closes plan limit state ending) (first : ending.state.iteration = 0) :
    state.iteration = 0 ∧ ∃ count, Moves plan state count ending.state ∧
      (ending.state.Settled count ∧ ending.ofSeeds =
          (if ending.state.seeding.isSeeded then some (ending.state.modularity plan) else none) ∨
        ending.state.progress plan = .decreased) := by
  cases closes with
  | spent _ step =>
    rw [step.iteration] at first
    cases first
  | stopped _ step =>
    cases step with
    | settled moves settled =>
      dsimp only at first
      refine ⟨moves.sameRecords.iteration ▸ first, _, moves, .inl ⟨settled, ?_⟩⟩
      simp only [first, and_true]
    | decreased moves _ progress => exact ⟨moves.sameRecords.iteration ▸ first, _, moves, .inr progress⟩
    | slight =>
      rw [iteration_complete] at first
      cases first

theorem Reached.eq_start (reached : Reached plan start state merged) (first : state.iteration = 0) :
    state = start := by
  cases reached with
  | start => rfl
  | descended =>
    rw [iteration_complete] at first
    cases first

end Search

namespace Problem

variable {σ α : Type} [Scalar α] {G : Graph α} {config : Config α} {problem : Problem α}
  {sampler : Sampler σ α} {plan : Search.Plan σ α} {state moved : Search.State α}
  {merged : Nat → Nat} {count : Nat}

theorem Enters.stems (enters : problem.Enters sampler plan state merged) (fits : Fits G config problem)
    (closed : G.Closed) (located : G.Located) (lawful : sampler.Lawful) :
    state.Stems problem.seeds := by
  obtain ⟨assignment, seeding, resolved, rfl, reached⟩ := enters
  have rooted := fits.rooted_begin closed resolved sampler.schedule.additions
  have sized : ∀ given, problem.seeds = some given → given.size = problem.graph.nodeCount := by
    rw [fits.graph]
    exact fits.sized
  have stems : (problem.begin assignment seeding sampler.schedule.additions).Stems problem.seeds :=
    Seeding.stems_resolve resolved sized
  exact reached.stems lawful located rooted stems

/-- The moves of an iteration lead to communities that a level shows, each root node in that of the node
it was merged into. -/
inductive Shows (G : Graph α) (problem : Problem α) (sampler : Sampler σ α) (i : Nat)
    (level : Array Nat) : Prop
  | intro {plan : Search.Plan σ α} {state moved : Search.State α} {merged : Nat → Nat} {count : Nat}
      (enters : problem.Enters sampler plan state merged) (iteration : state.iteration = i)
      (moves : Search.Moves plan state count moved)
      (roots : ∀ id < G.nodeCount, ∃ v < G.nodeCount, G.toMapped? id = some v ∧
        moved.part id = merged v)
      (outputs : Search.Outputs G moved moved.part level)

/-- The moves of the first iteration lead to communities that the returned ones show. -/
inductive ShowsFirst (G : Graph α) (problem : Problem α) (sampler : Sampler σ α)
    (communities : Array Nat) : Prop
  | intro {plan : Search.Plan σ α} {state moved : Search.State α} {merged : Nat → Nat} {count : Nat}
      (enters : problem.Enters sampler plan state merged) (iteration : state.iteration = 0)
      (moves : Search.Moves plan state count moved)
      (outputs : Search.Outputs G moved id communities)

section Posed

variable (fits : Fits G config problem) (closed : G.Closed) (located : G.Located)
  (lawful : sampler.Lawful)

include fits closed located lawful

theorem Enters.named (enters : problem.Enters sampler plan state merged) :
    Search.Named problem.seeds G.nodeCount state :=
  (enters.rooted fits closed lawful).named (enters.stems fits closed located lawful) fits.sized

theorem Enters.named_moved (enters : problem.Enters sampler plan state merged)
    (moves : Search.Moves plan state count moved) :
    Search.Named problem.seeds G.nodeCount moved := by
  have rooted := enters.rooted fits closed lawful
  have stems := (enters.stems fits closed located lawful).move rooted.ready moves
  exact (rooted.move moves).named stems fits.sized

theorem shows_of_recording {assignment : Assignment} {seeding : Seeding} {i : Nat}
    {previous : Option (Array Nat)} {level : Array Nat}
    (resolved : Seeding.resolve (α := α) problem.graph.nodeCount problem.seeds =
      .ok (assignment, seeding))
    (recording : Search.Recording ⟨problem.config, problem.scale assignment, sampler⟩
      (problem.begin assignment seeding sampler.schedule.additions) i previous level) :
    problem.Shows G sampler i level := by
  obtain ⟨reached, iteration, -, moves, records, last⟩ := recording
  have enters : problem.Enters sampler _ _ _ := ⟨assignment, seeding, resolved, rfl, reached⟩
  have rooted := (enters.rooted fits closed lawful).move moves
  have leads := Search.leads_of_record records
  have named := enters.named_moved fits closed located lawful moves
  exact .intro enters iteration moves (fun id bound => rooted.exists_root located leads bound)
    ((rooted.held located leads).outputs named records last)

theorem showsFirst {ending : Search.Ending α} (reaches : problem.Reaches sampler ending)
    (first : ending.ofSeeds ≠ none ∨ ending.state.iteration = 0) :
    problem.ShowsFirst G sampler ((List.range G.nodeCount).map fun node =>
      ending.state.seeding.outputId (ending.state.level.assignment.of node)).toArray := by
  obtain ⟨assignment, seeding, resolved, run⟩ := reaches
  obtain ⟨left, limit⟩ := fits.limit
  obtain ⟨last, merged, reached, closes⟩ := run.closes .start (limit ▸ Nat.succ_ne_zero left)
  have first : ending.state.iteration = 0 := first.elim closes.iteration_of_ofSeeds id
  obtain ⟨iteration, count, moves, -⟩ := closes.moves_of_first first
  have enters : problem.Enters sampler _ _ _ := ⟨assignment, seeding, resolved, rfl, reached⟩
  have named := enters.named_moved fits closed located lawful moves
  have graph : ending.state.level.graph = G := by
    obtain ⟨_, _, -, -, shape⟩ := moves.passed
    rw [shape, reached.eq_start iteration]
    exact fits.graph
  refine .intro enters iteration moves (named.outputs (by simp) ?_ fun u bound => ?_)
  · rw [graph]
    exact fun u bound => bound
  · exact Hierarchy.of_map_range _ bound

theorem Reaches.shows_communities {ending : Search.Ending α}
    (reaches : problem.Reaches sampler ending) :
    (∃ i, i + 1 = (ending.result problem.graph.nodeCount).ranIterations ∧
      problem.Shows G sampler i (ending.result problem.graph.nodeCount).communities) ∨
    problem.ShowsFirst G sampler (ending.result problem.graph.nodeCount).communities := by
  obtain ⟨assignment, seeding, resolved, chronicle⟩ := reaches.chronicle
  have first := showsFirst fits closed located lawful reaches
  rw [fits.graph]
  unfold Search.Ending.result
  cases seeds : ending.ofSeeds with
  | some modularity => exact .inr (first (.inl (by simp [seeds])))
  | none =>
    -- The last level is returned; if there is none, no iteration was completed.
    cases last : ending.state.hierarchy.current? with
    | none =>
      right
      show problem.ShowsFirst _ _ (ending.state.hierarchy.current?.getD _)
      rw [last]
      exact first (.inr (chronicle.fresh.mp last))
    | some level =>
      left
      obtain ⟨i, previous, iteration, recording⟩ := chronicle.last level last
      refine ⟨i, iteration, ?_⟩
      show problem.Shows _ _ i (ending.state.hierarchy.current?.getD _)
      rw [last]
      exact shows_of_recording fits closed located lawful resolved recording

end Posed

/-- Communities have different output ids throughout a search. Levels and returned communities show
them. -/
theorem output_ids (closed : G.Closed) (located : G.Located) (posed : Posed G config problem)
    (lawful : sampler.Lawful) :
    (∀ plan state merged, problem.Enters sampler plan state merged →
      Search.Named problem.seeds G.nodeCount state ∧ ∀ count moved,
        Search.Moves plan state count moved → Search.Named problem.seeds G.nodeCount moved) ∧
    ∀ watch result, (problem.run sampler watch).1 = .ok result →
      (∀ dendrogram, result.dendrogram = some dendrogram → ∀ (i : Nat) level,
        dendrogram.levels[i]? = some level → problem.Shows G sampler i level) ∧
      ((∃ i, i + 1 = result.ranIterations ∧ problem.Shows G sampler i result.communities) ∨
        problem.ShowsFirst G sampler result.communities) := by
  have fits := posed.fits
  constructor
  · intro plan state merged enters
    exact ⟨enters.named fits closed located lawful,
      fun count moved moves => enters.named_moved fits closed located lawful moves⟩
  · intro watch result ok
    obtain ⟨ending, reaches, rfl⟩ := run_ok ok
    obtain ⟨assignment, seeding, resolved, chronicle⟩ := reaches.chronicle
    constructor
    · intro dendrogram kept i level found
      obtain ⟨-, all, levels⟩ := dendrogram_result kept
      rw [levels] at found
      obtain ⟨previous, recording, -⟩ := chronicle.each all i level found
      exact shows_of_recording fits closed located lawful resolved recording
    · exact reaches.shows_communities fits closed located lawful

def labelledStar : Problem ℚ := { star ℚ with seeds := some #[some 5, none, some 7, none] }

theorem posed_labelledStar : Posed (star ℚ).graph (star ℚ).config labelledStar :=
  (posed_star (by decide +kernel)).seeded (by decide +kernel)

theorem output_ids_labelledStar :
    labelledStar.Shows (star ℚ).graph (Sampler.steady ℚ) 0 #[5, 5, 5, 11] ∧
      labelledStar.Shows (star ℚ).graph (Sampler.steady ℚ) 1 #[11, 5, 5, 11] := by
  have given := fromEdges_star (α := ℚ) (by decide +kernel)
  obtain ⟨-, shown⟩ := output_ids given.closed (Graph.faithful_of_untranslated rfl).located
    posed_labelledStar (Sampler.lawful_steady ℚ)
  have run : (labelledStar.run (Sampler.steady ℚ) fun _ => false).1 = .ok { starResult with
      communities := #[11, 5, 5, 11]
      dendrogram := some ⟨#[#[5, 5, 5, 11], #[11, 5, 5, 11]]⟩ } := by
    decide +kernel
  obtain ⟨levels, -⟩ := shown _ _ run
  exact ⟨levels _ rfl 0 _ rfl, levels _ rfl 1 _ rfl⟩

end Problem

end CommunityDetection
