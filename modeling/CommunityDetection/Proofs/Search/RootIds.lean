import CommunityDetection.Proofs.Search.FirstRecord
import CommunityDetection.Proofs.Search.Following
import CommunityDetection.Proofs.Search.Losses

/-!
# Root graphs with ids of their own

The chain of a search starts from the node indices of the root graph, but its first level is looked up
by original ids. So a search over a graph that translates its ids does the same as the search over the
graph without them until the first level is recorded. Then it fails with the first index that is not an
original id (`run_of_lost`); if there is none, it goes on and records every level at the nodes whose
original ids are the indices (`run_of_mapped`). `run_eq_untranslated_iff` says when both searches have
the same outcome.
-/

namespace CommunityDetection

def Graph.untranslated {α : Type} (G : Graph α) : Graph α := { G with translation := none }

namespace Problem

open Session

variable {σ α : Type} [Scalar α] {G : Graph α} {config : Config α} {problem : Problem α}
  {sampler : Sampler σ α} {watch : Watch α} {left : Nat} {first second : Search.Opening σ α}
  {root : Nat → Nat}

def untranslated {α : Type} (problem : Problem α) : Problem α :=
  { problem with graph := problem.graph.untranslated }

theorem Fits.untranslated (fits : Fits G config problem) :
    Fits G.untranslated config problem.untranslated :=
  ⟨fits.valid, congrArg Graph.untranslated fits.graph, fits.config, fits.undirected, fits.sized⟩

theorem begin_alike (problem : Problem α) (assignment : Assignment) (seeding : Seeding) (additions : List Nat) :
    Search.Alike (problem.begin assignment seeding additions)
      (problem.untranslated.begin assignment seeding additions) := ⟨rfl, rfl, rfl⟩

structure OpensAlike (problem : Problem α) (first second : Search.Opening σ α) : Prop where
  plan : first.plan = second.plan
  found : first.found.2 = second.found.2
  starts : ∃ assignment seeding additions,
    Seeding.resolve (α := α) problem.graph.nodeCount problem.seeds = .ok (assignment, seeding) ∧
      Search.MovedAlike (problem.begin assignment seeding additions)
        (problem.untranslated.begin assignment seeding additions) first.moved second.moved

theorem OpensAlike.settled_iff (alike : OpensAlike problem first second) :
    first.Settled ↔ second.Settled := by
  obtain ⟨assignment, seeding, additions, -, moved⟩ := alike.starts
  unfold Search.Opening.Settled
  rw [alike.found]
  exact moved.alike.settled_iff

theorem OpensAlike.summary_eq (alike : OpensAlike problem first second) :
    Search.summary first.found = Search.summary second.found := by
  obtain ⟨assignment, seeding, additions, -, moved⟩ := alike.starts
  obtain ⟨plan, state, found⟩ := first
  obtain ⟨plan', state', found'⟩ := second
  cases alike.found
  exact moved.alike.summary_eq _

theorem OpensAlike.size_chain (alike : OpensAlike problem first second) :
    first.moved.hierarchy.chain.size = problem.graph.nodeCount := by
  obtain ⟨assignment, seeding, additions, -, moved⟩ := alike.starts
  rw [moved.hierarchy]
  exact Assignment.size_singletons _

theorem OpensAlike.of_chain (alike : OpensAlike problem first second) {v : Nat}
    (bound : v < problem.graph.nodeCount) : Assignment.of first.moved.hierarchy.chain v = v := by
  obtain ⟨assignment, seeding, additions, -, moved⟩ := alike.starts
  rw [moved.hierarchy]
  exact Assignment.of_singletons bound

theorem setUp_matches (problem : Problem α) (additions : List Nat) :
    (problem.setUp additions).Matches (fun first second => first.2 = second.2 ∧ ∃ assignment seeding,
      Seeding.resolve (α := α) problem.graph.nodeCount problem.seeds = .ok (assignment, seeding) ∧
        first.1 = problem.begin assignment seeding additions ∧
        second.1 = problem.untranslated.begin assignment seeding additions)
      (problem.untranslated.setUp additions) := by
  refine Matches.stage ?_ _
  refine matches_bind_same fun start gives => ?_
  refine matches_bind_same fun _ _ => ?_
  exact matches_pure ⟨rfl, _, _, gives.ofExcept, rfl, rfl⟩

theorem opening_matches (problem : Problem α) (sampler : Sampler σ α) :
    (problem.opening sampler).Matches (OpensAlike problem) (problem.untranslated.opening sampler) := by
  refine (setUp_matches problem _).bind fun first second ⟨scale, assignment, seeding, resolves, left, right⟩
    _ _ => ?_
  obtain ⟨state, scale⟩ := first
  obtain ⟨state', scale'⟩ := second
  cases scale
  dsimp only at left right
  subst left right
  refine (begin_alike problem assignment seeding _).survey_matches.bind
    fun first second ⟨same, moved⟩ _ _ => ?_
  exact matches_pure ⟨rfl, same, assignment, seeding, _, resolves, moved⟩

theorem opens (problem : Problem α) (sampler : Sampler σ α) (watch : Watch α) :
    (∃ failure journal,
      problem.opening sampler watch (firstJournal watch) = (.error failure, journal) ∧
      problem.untranslated.opening sampler watch (firstJournal watch) = (.error failure, journal)) ∨
    ∃ first second journal,
      problem.opening sampler watch (firstJournal watch) = (.ok first, journal) ∧
      problem.untranslated.opening sampler watch (firstJournal watch) = (.ok second, journal) ∧
      OpensAlike problem first second := by
  have agree := opening_matches problem sampler watch (firstJournal watch)
  cases left : problem.opening sampler watch (firstJournal watch) with
  | mk outcome journal =>
    cases right : problem.untranslated.opening sampler watch (firstJournal watch) with
    | mk outcome' journal' =>
      rw [left, right] at agree
      cases agree with
      | error => exact .inl ⟨_, _, rfl, rfl⟩
      | ok alike => exact .inr ⟨_, _, _, rfl, rfl, alike⟩

/-! ## Nothing is recorded -/

theorem OpensAlike.finish_eq (alike : OpensAlike problem first second) :
    problem.finish ⟨first.moved, true, .converged, first.found.2.2⟩ =
      problem.untranslated.finish ⟨second.moved, true, .converged, second.found.2.2⟩ := by
  obtain ⟨assignment, seeding, additions, -, moved⟩ := alike.starts
  have hierarchy : first.moved.hierarchy = second.moved.hierarchy :=
    moved.hierarchy.trans moved.rightHierarchy.symm
  have iteration := moved.alike.iteration
  unfold finish Search.Ending.result
  dsimp only
  rw [iteration, hierarchy, moved.alike.seeding, Level.assignment_congr moved.alike.level,
    moved.alike.modularities, moved.alike.latest, alike.found]
  rfl

theorem run_of_not_records (fits : Fits G config problem)
    (unrecorded : ¬problem.untranslated.Records sampler watch) :
    (problem.run sampler watch).1 = (problem.untranslated.run sampler watch).1 := by
  obtain ⟨left, limit⟩ := fits.limit
  have limitToo : problem.untranslated.config.maxLevels = left + 1 := limit
  rw [run_eq limit, run_eq limitToo, bind_apply, bind_apply]
  rcases opens problem sampler watch with ⟨failure, journal, fails, failsToo⟩ |
    ⟨first, second, journal, opensFirst, opensSecond, alike⟩
  · rw [fails, failsToo]
  · rw [opensFirst, opensSecond]
    have settled : second.Settled := by
      by_contra unsettled
      exact unrecorded ((records_iff limitToo opensSecond).mpr unsettled)
    have settledToo := alike.settled_iff.mpr settled
    dsimp only
    unfold closing
    rw [goOn_of_settled settled, goOn_of_settled settledToo, alike.finish_eq, alike.summary_eq]

/-! ## A root node is lost -/

omit [Scalar α] in
theorem record_of_loses {state : Search.State α} {v : Nat}
    (loses : state.hierarchy.Loses state.level.graph v) :
    state.record = .error (.inconsistent (.rootLost v (Assignment.of state.hierarchy.chain v))) := by
  rw [Search.State.record, Hierarchy.record, Hierarchy.translate_of_loses loses]
  rfl

theorem run_of_lost (fits : Fits G config problem)
    (records : problem.untranslated.Records sampler watch) {v : Nat} (bound : v < G.nodeCount)
    (lost : G.toMapped? v = none) (earlier : ∀ u < v, G.toMapped? u ≠ none) :
    (problem.run sampler watch).1 = .error (.inconsistent (.rootLost v v)) := by
  obtain ⟨left, limit⟩ := fits.limit
  have limitToo : problem.untranslated.config.maxLevels = left + 1 := limit
  rw [run_eq limit, bind_apply]
  rcases opens problem sampler watch with ⟨failure, journal, -, fails⟩ |
    ⟨first, second, journal, opensFirst, opensSecond, alike⟩
  · exact absurd records (not_records_of_error limitToo fails)
  · have unsettled := (records_iff limitToo opensSecond).mp records
    have unsettledToo := alike.settled_iff.not.mpr unsettled
    obtain ⟨assignment, seeding, additions, -, moved⟩ := alike.starts
    have graph := fits.graph
    subst graph
    have loses : first.moved.hierarchy.Loses first.moved.level.graph v := by
      refine ⟨bound.trans_eq alike.size_chain.symm, ?_, fun u before => ?_⟩
      · rw [alike.of_chain bound, moved.graph]
        exact lost
      · rw [alike.of_chain (before.trans bound), moved.graph]
        exact earlier u before
    have failed := record_of_loses loses
    rw [alike.of_chain bound] at failed
    rw [opensFirst]
    dsimp only
    unfold closing
    rw [bind_apply]
    exact congrArg Prod.fst (goOn_of_record_error unsettledToo moved.modularities failed _)

/-! ## Every root node is mapped -/

theorem OpensAlike.follows (alike : OpensAlike problem first second) (fits : Fits G config problem)
    (closed : G.Closed) (comm : ∀ {u v}, G.Adjacent u v → G.Adjacent v u)
    (gives : (problem.untranslated.opening sampler).Gives second) (faithful : G.Faithful)
    (mapped : ∀ v < G.nodeCount, G.toMapped? v = some (root v)) :
    Search.Follows G.untranslated root first.moved second.moved := by
  obtain ⟨assignment, seeding, additions, resolves, moved⟩ := alike.starts
  obtain ⟨again, sameSeeding, resolvesToo, -, moves, -⟩ := opening_gives gives
  cases resolves.symm.trans resolvesToo
  obtain ⟨anchored, parts⟩ := fits.untranslated.anchored closed comm rfl resolves sampler.schedule.additions
  have next := anchored.move moves
  obtain ⟨start, reached, -, -, shape⟩ := moves.passed
  have graph := fits.graph
  subst graph
  refine ⟨moved.alike, next, alike.size_chain, fun v bound => ?_, ?_, ?_, ?_⟩
  · have bound : v < problem.graph.nodeCount := bound.trans_eq alike.size_chain
    have inside : root v < problem.graph.nodeCount := ((faithful _ _).mp (mapped v bound)).1
    have part : second.moved.part (root v) = root v := by
      rw [shape]
      exact parts (root v) inside
    dsimp only
    rw [alike.of_chain bound, moved.graph, part]
    exact mapped v bound
  · rw [moved.hierarchy, moved.rightHierarchy]
    rfl
  · rw [moved.hierarchy, moved.rightHierarchy]
    exact Array.map_empty.symm
  · rw [moved.rightHierarchy]
    nofun

omit [Scalar α] in
theorem finish_matches {left right : Search.Ending α}
    (follows : Search.EndingFollows G.untranslated root left right) :
    (problem.finish left).Matches (fun first second => first = second.reread root ∧
      second.Sized G.nodeCount) (problem.untranslated.finish right) := by
  have levelCount : left.state.hierarchy.levelCount = right.state.hierarchy.levelCount := by
    unfold Hierarchy.levelCount
    rw [follows.state.levels, Array.size_map]
  unfold finish
  rw [follows.state.iteration, follows.terminalState, levelCount]
  exact matches_bind_same fun _ _ => matches_pure ⟨follows.result_eq _, follows.sized _⟩

theorem OpensAlike.goOn_matches (alike : OpensAlike problem first second)
    (follows : Search.Follows G.untranslated root first.moved second.moved)
    (closed : G.Closed) (within : ∀ v < G.nodeCount, root v < G.nodeCount)
    (lawful : second.plan.sampler.Lawful) (unsettled : ¬second.Settled)
    (start : second.moved.modularities = #[]) :
    (problem.goOn left first).Matches (fun first second => first = second.reread root ∧
      second.Sized G.nodeCount) (problem.untranslated.goOn left second) := by
  obtain ⟨plan, moved, found⟩ := first
  obtain ⟨plan', moved', count, measured⟩ := second
  cases alike.plan
  cases alike.found
  refine (follows.weigh_matches closed within lawful (fun settled => absurd settled unsettled)
    (fun later => absurd start later)).bind fun first second outcome _ _ => ?_
  refine Matches.bind ?_ fun _ _ ends _ _ => finish_matches ends
  cases outcome with
  | ended ends => exact matches_pure ends
  | completed follows recorded => exact follows.iterate_matches recorded closed within lawful left

/-- If every index is an original id, the levels are those of the search over the graph whose nodes
keep their ids, read at the nodes with the indices as original ids. -/
theorem run_of_mapped (fits : Fits G config problem) (closed : G.Closed)
    (comm : ∀ {u v}, G.Adjacent u v → G.Adjacent v u) (faithful : G.Faithful)
    (lawful : sampler.Lawful) (records : problem.untranslated.Records sampler watch)
    (mapped : ∀ v < G.nodeCount, G.toMapped? v = some (root v)) :
    (problem.run sampler watch).1 =
        (problem.untranslated.run sampler watch).1.map (Result.reread root) ∧
      ∀ result, (problem.untranslated.run sampler watch).1 = .ok result →
        result.Sized G.nodeCount := by
  have within : ∀ v < G.nodeCount, root v < G.nodeCount := fun v bound =>
    ((faithful _ _).mp (mapped v bound)).1
  obtain ⟨left, limit⟩ := fits.limit
  have limitToo : problem.untranslated.config.maxLevels = left + 1 := limit
  rw [run_eq limit, run_eq limitToo, bind_apply, bind_apply]
  rcases opens problem sampler watch with ⟨failure, journal, -, fails⟩ |
    ⟨first, second, journal, opensFirst, opensSecond, alike⟩
  · exact absurd records (not_records_of_error limitToo fails)
  · -- The first iteration is alike in both searches; after it, one follows the other.
    have unsettled := (records_iff limitToo opensSecond).mp records
    have gives : (problem.untranslated.opening sampler).Gives second :=
      ⟨watch, _, congrArg Prod.fst opensSecond⟩
    have follows := alike.follows fits closed comm gives faithful mapped
    obtain ⟨assignment, seeding, -, plan, -, -⟩ := opening_gives gives
    have lawful : second.plan.sampler.Lawful := by
      rw [plan]
      exact lawful
    obtain ⟨_, _, _, -, moved⟩ := alike.starts
    have start : second.moved.modularities = #[] := moved.alike.modularities.symm.trans moved.modularities
    have closes : (problem.closing left first).Matches (fun first second =>
        first = second.reread root ∧ second.Sized G.nodeCount) (problem.untranslated.closing left second) := by
      unfold closing
      rw [alike.summary_eq]
      exact matches_bind_same fun _ _ => alike.goOn_matches follows closed within lawful unsettled start
    rw [opensFirst, opensSecond]
    exact (closes watch journal).map

/-! ## Whether the ids make a difference -/

omit [Scalar α] in
theorem mapped_or_lost (G : Graph α) :
    (∀ v < G.nodeCount, G.toMapped? v = some ((G.toMapped? v).getD 0)) ∨
      ∃ v < G.nodeCount, G.toMapped? v = none ∧ ∀ u < v, G.toMapped? u ≠ none := by
  by_cases missing : ∃ v < G.nodeCount, G.toMapped? v = none
  · obtain ⟨bound, lost⟩ := Nat.find_spec missing
    refine .inr ⟨Nat.find missing, bound, lost, fun u before none => ?_⟩
    exact Nat.find_min missing before ⟨before.trans bound, none⟩
  · refine .inl fun v bound => ?_
    cases found : G.toMapped? v with
    | none => exact absurd ⟨v, bound, found⟩ missing
    | some w => rfl

/-- A search over a graph with translated ids has the outcome of the search over the graph without
them exactly if nothing is recorded, or every index is the original id of a node, which then has the
same communities on all levels as the node with that index. -/
theorem run_eq_untranslated_iff (posed : Posed G config problem) (closed : G.Closed)
    (comm : ∀ {u v}, G.Adjacent u v → G.Adjacent v u) (faithful : G.Faithful)
    (lawful : sampler.Lawful) :
    (problem.run sampler watch).1 = (problem.untranslated.run sampler watch).1 ↔
      (problem.untranslated.Records sampler watch → ∀ v < G.nodeCount, ∃ w < G.nodeCount,
        G.toOriginal w = v ∧ ∀ result, (problem.untranslated.run sampler watch).1 = .ok result →
          result.Alike v w) := by
  have fits := posed.fits
  by_cases records : problem.untranslated.Records sampler watch
  · simp only [records, true_imp_iff]
    rcases mapped_or_lost G with mapped | ⟨v, bound, lost, earlier⟩
    · obtain ⟨same, sized⟩ := run_of_mapped fits closed comm faithful lawful records mapped
      rw [same]
      constructor
      · intro equal v bound
        obtain ⟨inside, original⟩ := (faithful _ _).mp (mapped v bound)
        refine ⟨_, inside, original, fun result ok => ?_⟩
        rw [ok] at equal
        have reread : result.reread (fun v => (G.toMapped? v).getD 0) = result := Except.ok.inj equal
        exact (Result.reread_eq_self_iff (sized result ok)).mp reread v bound
      · intro alike
        cases ran : (problem.untranslated.run sampler watch).1 with
        | error failure => rfl
        | ok result =>
          refine congrArg Except.ok ((Result.reread_eq_self_iff (sized result ran)).mpr ?_)
          intro v bound
          obtain ⟨w, inside, original, results⟩ := alike v bound
          rw [(faithful v w).mpr ⟨inside, original⟩]
          exact results result ran
    · have failed := run_of_lost fits records bound lost earlier
      constructor
      · intro equal
        rw [failed] at equal
        exact (run_keepsRoots fits.untranslated closed comm rfl lawful equal.symm).elim
      · intro alike
        obtain ⟨w, inside, original, -⟩ := alike v bound
        rw [(faithful v w).mpr ⟨inside, original⟩] at lost
        cases lost
  · simp only [records, false_imp_iff, iff_true]
    exact run_of_not_records fits records

/-- The only edge of two nodes, with ids that are no indices. -/
def edge : Problem ℚ where
  graph := .ofRows .undirected #[[(1, 1)], [(0, 1)]] #[5, 7] 8
  config := Config.standard
  seeds := none

theorem closed_edge : edge.graph.Closed := by
  intro node entry member
  rcases node with _ | _ | node
  · cases List.mem_singleton.mp member
    decide
  · cases List.mem_singleton.mp member
    decide
  · cases member

theorem adjacent_edge_comm {u v : Nat} (adjacent : edge.graph.Adjacent u v) :
    edge.graph.Adjacent v u := by
  obtain ⟨entry, member, rfl⟩ := adjacent
  rcases u with _ | _ | u
  · cases List.mem_singleton.mp member
    exact ⟨(0, 1), List.mem_singleton_self _, rfl⟩
  · cases List.mem_singleton.mp member
    exact ⟨(1, 1), List.mem_singleton_self _, rfl⟩
  · cases member

theorem run_ne_untranslated_edge :
    (edge.run (Sampler.steady ℚ) fun _ => false).1 ≠
      (edge.untranslated.run (Sampler.steady ℚ) fun _ => false).1 := by
  intro equal
  have records : edge.untranslated.Records (Sampler.steady ℚ) fun _ => false :=
    ⟨1, 1, 0, by decide +kernel, by decide, by decide⟩
  have posed : Posed edge.graph edge.config edge :=
    posed_of_valid (by decide +kernel) rfl rfl rfl
  obtain ⟨w, inside, original, -⟩ := (run_eq_untranslated_iff posed closed_edge adjacent_edge_comm
    (Graph.faithful_ofRows _ rfl (by decide) (by decide)) (Sampler.lawful_steady ℚ)).mp equal records 0
    (by decide)
  -- The ids of the two nodes are `5` and `7`.
  rcases w with _ | _ | w
  · cases original
  · cases original
  · exact absurd inside (by simp [edge, Graph.ofRows, Graph.nodeCount])

end Problem

end CommunityDetection
