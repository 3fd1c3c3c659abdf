import CommunityDetection.Proofs.LocalMove.Passes
import CommunityDetection.Proofs.LocalMove.Sizes
import CommunityDetection.Proofs.Resolution
import CommunityDetection.Proofs.Search.Completeness
import CommunityDetection.Proofs.Search.Limits
import CommunityDetection.Proofs.Search.Workers
import CommunityDetection.Proofs.Sign

/-!
# Seeds that cannot be improved

A search whose first local moves move nothing ends with its first iteration. From seeds it gives them back:
every labelled node its label, and every other node an id of its own (`seeds_kept`).
-/

namespace CommunityDetection

namespace Problem

variable {σ α : Type} [Scalar α] {G : Graph α} {config : Config α} {problem : Problem α}
  {sampler : Sampler σ α} {given : Array (Option Nat)} {assignment : Assignment} {seeding : Seeding}
  {moved : Search.State α}

theorem Fits.exists_moveStart (fits : Fits G config problem)
    (resolved : Seeding.resolve (α := α) problem.graph.nodeCount problem.seeds = .ok (assignment, seeding)) :
    ∃ start, (problem.begin assignment seeding sampler.schedule.additions).level.moveStart = .ok start := by
  have within := (fits.within resolved).1
  have counts := Seeding.communityCount_resolve resolved
    fun seeds equal => (fits.sized seeds equal).trans (congrArg Graph.nodeCount fits.graph.symm)
  rw [← fits.graph] at within
  obtain ⟨start, starts, -⟩ := LocalMove.exists_start within
    (problem.volumes assignment sampler.schedule.additions).communities counts
  exact ⟨start, starts⟩

theorem Fits.phase_of_still [Volumes.Steady α] (fits : Fits G config problem)
    (resolved : Seeding.resolve (α := α) problem.graph.nodeCount problem.seeds = .ok (assignment, seeding))
    {setting : LocalMove.Setting α} {start : LocalMove.State α}
    (named : setting = (problem.begin assignment seeding sampler.schedule.additions).moveSetting
      ⟨problem.config, problem.scale assignment, sampler⟩)
    (starts : (problem.begin assignment seeding sampler.schedule.additions).level.moveStart = .ok start)
    (inOrder : config.Alone G.nodeCount ∨ sampler.schedule.additions = [])
    (still : (LocalMove.sweep setting (setting.turns 0) (Array.replicate G.nodeCount true) start).moves = 0) :
    (LocalMove.run setting start).failure? = none ∧ (LocalMove.run setting start).moves = 0 := by
  have bounded := (fits.within resolved).1.bounded
  obtain rfl := fits.graph
  obtain rfl := fits.config
  subst named
  obtain ⟨kept, volumes⟩ := Level.moveStart_ok starts
  have steady : Volumes.drift?
        ⟨(problem.volumes assignment sampler.schedule.additions).nodes, start.communityVolumes⟩
      start.assignment = none := by
    rw [kept, volumes]
    have added : Volumes.added problem.graph.nodeCount problem.config.concurrency sampler.schedule.additions =
        List.range problem.graph.nodeCount :=
      inOrder.elim (fun alone => alone.added _) fun none => by rw [none, Volumes.added_nil]
    exact Volumes.drift?_initial problem.graph _ _ _ added bounded
  have ends := LocalMove.run_of_still still steady
  exact ⟨congrArg LocalMove.Report.failure? ends, congrArg LocalMove.Report.moves ends⟩

structure GivesBack (given : Array (Option Nat)) (result : Result α) : Prop where
  size : result.communities.size = given.size
  labelled : ∀ {v label : Nat}, given[v]? = some (some label) → result.communities[v]? = some label
  /-- A node without a label is alone, with an id above all labels. -/
  unlabelled : ∀ {v : Nat}, given[v]? = some none → ∃ id, result.communities[v]? = some id ∧
    (∀ label, some label ∈ given.toList → label < id) ∧ ∀ u : Nat, result.communities[u]? = some id → u = v
  ranIterations : result.ranIterations = 1
  dendrogram : result.dendrogram = none

omit [Scalar α] in
theorem givesBack_of_outputs {n : Nat}
    (resolved : Seeding.resolve (α := α) n (some given) = .ok (assignment, seeding)) {result : Result α}
    (communities : result.communities =
      ((List.range given.size).map fun node => seeding.outputId (assignment.of node)).toArray)
    (ranIterations : result.ranIterations = 1) (dendrogram : result.dendrogram = none) :
    GivesBack given result := by
  have shown {v : Nat} (bound : v < given.size) :
      result.communities[v]? = some (seeding.outputId (assignment.of v)) := by
    simp [communities, bound]
  refine ⟨by simp [communities], fun {v label} found => ?_, fun {v} found => ?_, ranIterations, dendrogram⟩
  · obtain ⟨bound, -⟩ := Array.getElem?_eq_some_iff.mp found
    rw [shown bound, (Seeding.resolved_of_resolve resolved).labelled found]
  · obtain ⟨bound, -⟩ := Array.getElem?_eq_some_iff.mp found
    obtain ⟨above, differ⟩ := Seeding.outputId_unlabelled resolved found
    refine ⟨_, shown bound, above, fun u shownToo => ?_⟩
    obtain ⟨bounded, -⟩ := Array.getElem?_eq_some_iff.mp shownToo
    have inside : u < given.size := by simpa [communities] using bounded
    rw [shown inside] at shownToo
    exact differ u inside (Option.some_inj.mp shownToo)

theorem givesBack_of_unmoved (fits : Fits G config problem) (seeded : problem.seeds = some given)
    (resolved : Seeding.resolve (α := α) problem.graph.nodeCount problem.seeds = .ok (assignment, seeding))
    (moves : Search.Moves ⟨problem.config, problem.scale assignment, sampler⟩
      (problem.begin assignment seeding sampler.schedule.additions) 0 moved) {watch : Watch α} {result : Result α}
    (ok : (problem.run sampler watch).1 = .ok result) : GivesBack given result := by
  obtain ⟨left, limit⟩ := fits.limit
  obtain ⟨ending, ⟨_, _, resolvedToo, run⟩, rfl⟩ := run_ok ok
  cases resolved.symm.trans resolvedToo
  rw [limit] at run
  obtain rfl := run.ending_of_settled moves (.inl rfl)
  obtain ⟨start, starts, rfl⟩ := moves.eq_of_still rfl
  have size : problem.graph.nodeCount = given.size := by
    rw [fits.graph, fits.sized given seeded]
  rw [seeded] at resolved
  have isSeeded : seeding.isSeeded = true := by
    obtain ⟨offset, -, -, rfl⟩ := Seeding.resolve_some resolved
    rfl
  have kept : start.assignment = assignment := (Level.moveStart_ok starts).1
  have measured : (problem.begin assignment seeding sampler.schedule.additions).seeding.isSeeded = true ∧
    (problem.begin assignment seeding sampler.schedule.additions).iteration = 0 := ⟨isSeeded, rfl⟩
  rw [Search.Ending.result, if_pos measured, size]
  refine givesBack_of_outputs resolved ?_ rfl rfl
  dsimp only
  rw [← kept]
  rfl

/-- Seeds are refused exactly where a node has no label and the ids above the labels, one for each node, would
not all be below `2 ^ 64`; otherwise they are resolved exactly. Where the first local moves of a search from
seeds end and have moved nothing, the search returns a result unless it is stopped, and whatever it returns
gives the seeds back. If their first pass moves nothing and the nodes have added their volumes in order, the
local moves end so. -/
theorem seeds_kept [Volumes.Steady α] :
    (∀ n given, (∃ failure, Seeding.resolve (α := α) n (some given) = .error failure) ↔
      none ∈ given.toList ∧
        2 ^ 64 - 1 < (Seeding.largest? given.toList).elim 0 (· + 1) + (given.size - 1)) ∧
    (∀ n given assignment seeding, Seeding.resolve (α := α) n (some given) = .ok (assignment, seeding) →
      Seeding.Resolved given assignment seeding) ∧
    ∀ (G : Graph α) (config : Config α) (problem : Problem α) (sampler : Sampler σ α) given,
      Posed G config problem → problem.seeds = some given →
      ∃ assignment seeding start,
        Seeding.resolve (α := α) problem.graph.nodeCount problem.seeds = .ok (assignment, seeding) ∧
        let state := problem.begin assignment seeding sampler.schedule.additions
        let setting := state.moveSetting ⟨problem.config, problem.scale assignment, sampler⟩
        let phase := LocalMove.run setting start
        state.level.moveStart = .ok start ∧
        (config.Alone G.nodeCount ∨ sampler.schedule.additions = [] →
          (LocalMove.sweep setting (setting.turns 0) (Array.replicate G.nodeCount true) start).moves = 0 →
          phase.failure? = none ∧ phase.moves = 0) ∧
        (phase.failure? = none → phase.moves = 0 →
          (∃ result, (problem.run sampler fun _ => false).1 = .ok result) ∧
          ∀ watch result, (problem.run sampler watch).1 = .ok result → GivesBack given result) := by
  refine ⟨Seeding.resolve_error_iff, fun _ _ _ _ => Seeding.resolved_of_resolve, ?_⟩
  intro G config problem sampler given posed seeded
  have fits := posed.fits
  obtain ⟨assignment, seeding, resolved⟩ := posed.exists_resolve
  obtain ⟨start, starts⟩ := fits.exists_moveStart resolved
  refine ⟨assignment, seeding, start, resolved, starts, fits.phase_of_still resolved rfl starts, ?_⟩
  intro settled still
  have moves : Search.Moves ⟨problem.config, problem.scale assignment, sampler⟩
      (problem.begin assignment seeding sampler.schedule.additions) _ _ := .intro starts settled
  rw [still] at moves
  constructor
  · obtain ⟨left, limit⟩ := fits.limit
    have ends : Search.Run ⟨problem.config, problem.scale assignment, sampler⟩ (left + 1) _ _ :=
      .ended (.settled moves (.inl rfl))
    rw [← limit] at ends
    exact ⟨_, (run_ok_iff fun _ => rfl).mpr ⟨_, ⟨assignment, seeding, resolved, ends⟩, rfl⟩⟩
  · intro watch result ok
    exact givesBack_of_unmoved fits seeded resolved moves ok

def labelledPair : Problem Float where
  graph := ⟨.undirected, true, Graph.rowsOf 2 .undirected [⟨0, 0, 1⟩, ⟨1, 1, 1⟩, ⟨0, 1, 0.1⟩], none, []⟩
  config := Config.standard
  seeds := some #[some 7, none]

theorem posed_labelledPair : Posed labelledPair.graph labelledPair.config labelledPair := by
  have valid : ({ labelledPair with seeds := none } : Problem Float).config.fault?.isNone = true := by
    decide +kernel
  exact (posed_of_valid valid rfl rfl rfl).seeded (by decide +kernel)

/-- The label comes back although the node with it has a neighbour. A label one below the largest leaves no ids
for two nodes. -/
theorem seeds_kept_labelledPair :
    (∃ failure, Seeding.resolve (α := Float) 2 (some #[some (2 ^ 64 - 2), none]) = .error failure) ∧
    (Seeding.Resolved #[some 7, none, some 7] #[0, 1, 0] (.seeded [(0, 7)] 8 2)) ∧
    ∃ result, (labelledPair.run (Sampler.steady Float) fun _ => false).1 = .ok result ∧
      GivesBack #[some 7, none] result ∧ result.communities[0]? = some 7 ∧
      ∃ id, result.communities[1]? = some id ∧ 7 < id := by
  obtain ⟨refused, resolves, search⟩ := @seeds_kept Unit Float _ _
  refine ⟨(refused _ _).mpr (by decide), resolves 3 #[some 7, none, some 7] _ _ rfl, ?_⟩
  obtain ⟨assignment, seeding, start, resolved, starts, ends, returns⟩ :=
    search _ _ labelledPair (Sampler.steady Float) _ posed_labelledPair rfl
  have nodes : labelledPair.graph.nodeCount = 2 := by decide +kernel
  have numbered : Seeding.resolve (α := Float) labelledPair.graph.nodeCount labelledPair.seeds =
      .ok (#[0, 1], .seeded [(0, 7)] 8 2) := rfl
  cases numbered.symm.trans resolved
  have begun : (labelledPair.begin #[0, 1] (.seeded [(0, 7)] 8 2) []).level.moveStart =
      .ok ⟨#[0, 1], (labelledPair.volumes #[0, 1] []).communities, #[1, 1], 2⟩ := by
    change LocalMove.start labelledPair.graph.nodeCount _ _ 2 = _
    rw [nodes]
    rfl
  cases begun.symm.trans starts
  obtain ⟨settled, still⟩ := ends (.inr rfl) (by decide +kernel)
  obtain ⟨⟨result, ok⟩, back⟩ := returns settled still
  have givesBack := back _ _ ok
  have unlabelled : (#[some 7, none] : Array (Option Nat))[1]? = some none := rfl
  obtain ⟨id, shown, above, -⟩ := givesBack.unlabelled unlabelled
  exact ⟨result, ok, givesBack, givesBack.labelled rfl, id, shown, above 7 (by decide)⟩

end Problem

end CommunityDetection
