import CommunityDetection.Proofs.Graph.Storage
import CommunityDetection.Proofs.Graph.Unit
import CommunityDetection.Proofs.Hierarchy
import CommunityDetection.Proofs.LocalMove.Contest
import CommunityDetection.Proofs.Search.Completeness
import CommunityDetection.Proofs.Search.Problem
import CommunityDetection.Proofs.Search.State
import CommunityDetection.Proofs.Sign

/-!
# Searches that two schedules lead apart

A search of a single iteration returns the communities of its local moves (`exists_run_of_phase`). Where two
workers contest a node of a path (`Contested`), it goes to the first one in the order of the nodes, and its other
neighbour comes to it where the second worker is earlier. So one configuration has several results on one
graph.
-/

namespace CommunityDetection

/-- The second worker makes its first visit before all others. -/
def Schedule.secondFirst : Schedule where
  turns _ pass := if pass = 0 then [.visit 1] else []

namespace Problem

variable {σ α : Type} [Scalar α] {problem : Problem α} {sampler : Sampler σ α} {seeding : Seeding}

/-- The communities and levels of a search that ends with its first iteration. -/
structure Yields (problem : Problem α) (communities : Nat → Nat) (result : Result α) : Prop where
  communities : result.communities = ((List.range problem.graph.nodeCount).map communities).toArray
  dendrogram : result.dendrogram = if problem.config.keepLevels then some ⟨#[result.communities]⟩ else none

omit [Scalar α] in
theorem Yields.getElem? {communities : Nat → Nat} {result : Result α} (yields : problem.Yields communities result)
    {node : Nat} (bound : node < problem.graph.nodeCount) : result.communities[node]? = some (communities node) := by
  rw [yields.communities]
  simp [bound]

omit [Scalar α] in
theorem Yields.communities_ne {other : Problem α} {f g : Nat → Nat} {result plain : Result α}
    (yields : problem.Yields f result) (otherYields : other.Yields g plain)
    (same : other.graph.nodeCount = problem.graph.nodeCount) {node : Nat} (bound : node < problem.graph.nodeCount)
    (apart : f node ≠ g node) : result.communities ≠ plain.communities := by
  intro equal
  have shown := yields.getElem? bound
  rw [equal, otherYields.getElem? (same ▸ bound)] at shown
  exact apart (Option.some_inj.mp shown).symm

theorem exists_run_of_phase {assignment : Assignment} {start moved : LocalMove.State α} {count : Nat}
    (single : problem.config.maxLevels = 1) (untranslated : problem.graph.translation = none)
    (resolved : Seeding.resolve (α := α) problem.graph.nodeCount problem.seeds = .ok (assignment, seeding))
    (starts : (problem.begin assignment seeding sampler.schedule.additions).level.moveStart = .ok start)
    (phase : LocalMove.run ((problem.begin assignment seeding sampler.schedule.additions).moveSetting
      ⟨problem.config, problem.scale assignment, sampler⟩) start = ⟨moved, [count, 0], none⟩)
    (some : count ≠ 0) (shared : moved.occupied ≠ problem.graph.nodeCount) :
    ∃ result, (problem.run sampler fun _ => false).1 = .ok result ∧
      problem.Yields (fun node => seeding.outputId (moved.assignment.of node)) result := by
  let begun := problem.begin assignment seeding sampler.schedule.additions
  let plan : Search.Plan σ α := ⟨problem.config, problem.scale assignment, sampler⟩
  let after : Search.State α := { begun with level := begun.level.moved moved }
  have moves : Search.Moves plan begun (LocalMove.Report.moves ⟨moved, [count, 0], none⟩) after :=
    Search.moves_of_run starts phase rfl
  have unsettled : ¬after.Settled (LocalMove.Report.moves ⟨moved, [count, 0], none⟩) := by
    refine not_or.mpr ⟨?_, shared⟩
    simpa [LocalMove.Report.moves] using some
  have leads : begun.hierarchy.Leads problem.graph id :=
    Search.leads_start (Graph.keepsIds_of_untranslated untranslated) _
  have records : after.record = .ok { after with
      hierarchy := begun.hierarchy.push (begun.hierarchy.levelOf id moved.assignment seeding) } := by
    rw [Search.State.record]
    exact congrArg (Except.map _) (Hierarchy.record_of_leads leads moved.assignment seeding)
  -- The first modularity has none before it to be compared with, so its level is always recorded.
  have ends : Search.Run plan 1 begun _ := .completed (.last moves unsettled rfl records rfl) .exhausted
  rw [← single] at ends
  refine ⟨_, (run_ok_iff fun _ => rfl).mpr ⟨_, ⟨assignment, seeding, resolved, ends⟩, rfl⟩, ?_⟩
  have level : begun.hierarchy.levelOf id moved.assignment seeding = ((List.range problem.graph.nodeCount).map
      fun node => seeding.outputId (moved.assignment.of node)).toArray := by
    simp [begun, Problem.begin, Hierarchy.start, Hierarchy.levelOf]
  have pushed (level : Array Nat) : (begun.hierarchy.push level).levels = #[level] := by
    unfold Hierarchy.push
    split <;> rfl
  constructor
  · simp only [Search.Ending.result, Hierarchy.current?, Search.State.complete, pushed, level]
    rfl
  · simp only [Search.Ending.result, Hierarchy.current?, Hierarchy.dendrogram?, Search.State.complete, pushed]
    rfl

/-- A single iteration from every node alone, of whose two workers the second one begins at the end of a path
through the first two nodes. -/
structure Contested (problem : Problem α) (outer inner : α) : Prop where
  single : problem.config.maxLevels = 1
  several : 1 < problem.config.concurrency
  unseeded : problem.seeds = none
  untranslated : problem.graph.translation = none
  many : Span.leastSize < problem.graph.nodeCount
  light : problem.graph.relationshipCount + problem.graph.nodeCount < 2 * Span.leastSize
  first : LocalMove.others problem.graph 0 = [(1, 1)]
  middle : LocalMove.others problem.graph 1 = [(0, 1), (Span.leastSize, 1)]
  last : LocalMove.others problem.graph Span.leastSize = [(1, 1)]
  rest : ∀ node, node ≠ 0 → node ≠ 1 → node ≠ Span.leastSize → LocalMove.others problem.graph node = []
  volume_first : problem.graph.volume problem.config.countLoops 0 = outer
  volume_middle : problem.graph.volume problem.config.countLoops 1 = inner
  volume_last : problem.graph.volume problem.config.countLoops Span.leastSize = outer
  cramped : LocalMove.Cramped outer inner (problem.scale (.singletons problem.graph.nodeCount)).gamma

namespace Contested

variable {outer inner : α} (contested : Contested problem outer inner)

include contested

theorem resolved : Seeding.resolve (α := α) problem.graph.nodeCount problem.seeds =
    .ok (.singletons problem.graph.nodeCount, .unseeded problem.graph.nodeCount) := by
  rw [contested.unseeded]
  rfl

theorem exists_moveStart (inOrder : sampler.schedule.additions = []) :
    let begun := problem.begin (.singletons problem.graph.nodeCount) (.unseeded problem.graph.nodeCount)
      sampler.schedule.additions
    let plan : Search.Plan σ α := ⟨problem.config, problem.scale (.singletons problem.graph.nodeCount), sampler⟩
    ∃ start, begun.level.moveStart = .ok start ∧ LocalMove.Lone (begun.moveSetting plan) start ∧
      LocalMove.Contested (begun.moveSetting plan) Span.leastSize outer inner := by
  intro begun plan
  have counts : problem.graph.nodeCount = (Assignment.used (.singletons problem.graph.nodeCount)
      problem.graph.nodeCount).card := by
    rw [Assignment.used_singletons, Finset.card_range]
  have volumes {node : Nat} (bound : node < problem.graph.nodeCount) :
      (problem.volumes (.singletons problem.graph.nodeCount) sampler.schedule.additions).nodes.read node =
        problem.graph.volume problem.config.countLoops node := Volumes.read_nodes_initial _ _ _ _ _ bound
  have bound := contested.many
  have apart : 1 < Span.leastSize := by decide
  obtain ⟨start, starts, counted⟩ := LocalMove.exists_start (Assignment.within_singletons problem.graph.nodeCount)
    begun.level.volumes.communities counts
  obtain ⟨kept, gathered⟩ := LocalMove.start_ok starts
  have size : (problem.volumes (.singletons problem.graph.nodeCount) sampler.schedule.additions).nodes.size =
      problem.graph.nodeCount := Volumes.size_nodes_initial ..
  refine ⟨start, starts, ⟨kept, ?_, size, counted⟩, ?_⟩
  · rw [gathered, kept]
    simp only [begun, Problem.begin, Search.State.moveSetting, Level.moveSetting, Problem.volumes, inOrder,
      Volumes.initial_eq, Volumes.added_nil]
  · exact ⟨Graph.spans_pair contested.several contested.many contested.light, apart, bound, contested.first,
      contested.middle, contested.last, contested.rest,
      (volumes ((Nat.zero_lt_one.trans apart).trans bound)).trans contested.volume_first,
      (volumes (apart.trans bound)).trans contested.volume_middle, (volumes bound).trans contested.volume_last⟩

theorem exists_run_of_move {start : LocalMove.State α} {lower upper : Nat} {volume : α}
    (starts : (problem.begin (.singletons problem.graph.nodeCount) (.unseeded problem.graph.nodeCount)
      sampler.schedule.additions).level.moveStart = .ok start)
    {setting : LocalMove.Setting α} (lone : LocalMove.Lone setting start)
    (named : setting = (problem.begin (.singletons problem.graph.nodeCount) (.unseeded problem.graph.nodeCount)
      sampler.schedule.additions).moveSetting
        ⟨problem.config, problem.scale (.singletons problem.graph.nodeCount), sampler⟩)
    (below : lower < upper) (inside : upper < problem.graph.nodeCount)
    (phase : LocalMove.run setting start = ⟨start.move upper volume lower, [1, 0], none⟩) :
    ∃ result, (problem.run sampler fun _ => false).1 = .ok result ∧
      problem.Yields (fun node => if node = upper then lower else node) result := by
  subst named
  obtain ⟨result, ok, communities, dendrogram⟩ := exists_run_of_phase contested.single contested.untranslated
    contested.resolved starts phase Nat.one_ne_zero (lone.occupied_move below inside volume)
  refine ⟨result, ok, communities.trans (congrArg List.toArray (List.map_congr_left ?_)), dendrogram⟩
  intro node listed
  exact lone.of_move inside volume (List.mem_range.mp listed)

variable [Volumes.Steady α]

/-- In the order of the nodes, the one in the middle joins the first one. -/
theorem run_inOrder (inOrder : sampler.schedule = {}) : ∃ result,
    (problem.run sampler fun _ => false).1 = .ok result ∧
      problem.Yields (fun node => if node = 1 then 0 else node) result := by
  obtain ⟨start, starts, lone, path⟩ := contested.exists_moveStart (congrArg Schedule.additions inOrder)
  have turns (pass : Nat) : sampler.schedule.turns 0 pass = [] := by rw [inOrder]
  have phase := path.run_inOrder lone contested.cramped (turns 1) (turns 0)
  exact contested.exists_run_of_move starts lone rfl Nat.zero_lt_one path.one_lt phase

/-- Where the second worker is earlier, the last node joins the one in the middle. -/
theorem run_secondFirst (raced : sampler.schedule = .secondFirst) : ∃ result,
    (problem.run sampler fun _ => false).1 = .ok result ∧
      problem.Yields (fun node => if node = Span.leastSize then 1 else node) result := by
  obtain ⟨start, starts, lone, path⟩ := contested.exists_moveStart (congrArg Schedule.additions raced)
  have turns (pass : Nat) : sampler.schedule.turns 0 pass = if pass = 0 then [.visit 1] else [] := by
    rw [raced]
    rfl
  have phase := path.run_raced lone contested.cramped (turns 1) (turns 0)
  exact contested.exists_run_of_move starts lone rfl path.apart path.bound phase

end Contested

def contest : Problem Float where
  graph := ⟨.undirected, false, Graph.rowsOf 1001 .undirected (Graph.unitEdges [(0, 1), (1, 1000)]), none, []⟩
  config := { (Config.standard : Config Float) with
    maxLevels := 1
    gamma := Scalar.ratio 3 2
    keepLevels := true }
  seeds := none

theorem built_contest : Graph.ofEdges 1001 .undirected [(0, 1), (1, 1000)] = .ok contest.graph :=
  Graph.build_ok_of_sound (by decide +kernel)

theorem contested_contest : contest.Contested ((1 : Nat) : Float) ((2 : Nat) : Float) := by
  have stores : contest.graph.Stores 1001 .undirected false (Graph.unitEdges [(0, 1), (1, 1000)]) :=
    Graph.stores_of_build_ok built_contest
  have relationships : contest.graph.relationshipCount = 4 := stores.relationshipCount (by decide)
  have others (node : Nat) : LocalMove.others contest.graph node =
      ((Graph.unitEdges [(0, 1), (1, 1000)]).flatMap (Edge.entries .undirected node)).filter
        fun entry => entry.1 != node := by rw [LocalMove.others, stores.row]
  have counts : contest.graph.countsDegrees contest.config.countLoops = true := rfl
  have volume (node : Nat) : contest.graph.volume contest.config.countLoops node =
      (((Graph.unitEdges [(0, 1), (1, 1000)] : List (Edge Float)).flatMap
        (Edge.entries .undirected node)).length : Float) := by
    rw [Graph.volume, if_pos counts, stores.degree]
  have gamma : (contest.scale (.singletons contest.graph.nodeCount)).gamma =
      Scalar.ratio 3 2 * if 0 < ((4 : Nat) : Float) then 1 / ((4 : Nat) : Float) else 1 := by
    rw [scale, Scale.of, Volumes.coefficient, if_pos counts, relationships]
    rfl
  refine ⟨rfl, by decide, rfl, rfl, ?_, ?_, others 0, others 1, others 1000, ?_, ?_, ?_, ?_, ?_⟩
  · rw [stores.nodes]
    decide
  · rw [stores.nodes, relationships]
    decide
  · intro node first middle last
    rw [others]
    have last : 1000 ≠ node := last.symm
    simp [Graph.unitEdges, Edge.entries, first.symm, middle.symm, last]
  · rw [volume]
    congr 1
  · rw [volume]
    congr 1
  · rw [volume]
    congr 1
  · rw [gamma]
    constructor <;> decide +kernel

theorem pose_contest : pose contest.graph contest.config = .ok contest := by
  have valid : contest.config.fault?.isNone = true := by decide +kernel
  unfold pose Config.validate
  rw [Option.isNone_iff_eq_none.mp valid]
  rfl

theorem communities_contest_ne {result other : Result Float}
    (inOrder : contest.Yields (fun node => if node = 1 then 0 else node) result)
    (raced : contest.Yields (fun node => if node = Span.leastSize then 1 else node) other) :
    result.communities ≠ other.communities := by
  have bound : 1 < contest.graph.nodeCount := Nat.lt_trans (by decide) contested_contest.many
  exact inOrder.communities_ne raced rfl bound (by decide)

theorem findCommunities_contest_inOrder (entropy : BitVec 64) : ∃ result,
    findCommunities contest.graph contest.config entropy {} = .ok result ∧
      contest.Yields (fun node => if node = 1 then 0 else node) result := by
  rw [findCommunities_ok pose_contest]
  exact contested_contest.run_inOrder rfl

theorem findCommunities_contest_secondFirst (entropy : BitVec 64) : ∃ result,
    findCommunities contest.graph contest.config entropy .secondFirst = .ok result ∧
      contest.Yields (fun node => if node = Span.leastSize then 1 else node) result := by
  rw [findCommunities_ok pose_contest]
  exact contested_contest.run_secondFirst rfl

end Problem

end CommunityDetection
