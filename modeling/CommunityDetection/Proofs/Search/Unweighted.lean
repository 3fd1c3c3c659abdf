import CommunityDetection.Proofs.Graph.Unit
import CommunityDetection.Proofs.Search.Contest
import CommunityDetection.Proofs.Search.View
import CommunityDetection.Proofs.Search.Workers

/-!
# Searches on graphs without weights

Only the setup of a search asks whether its graph has weights, to count degrees where all of them are one.
So a search on a graph without weights is the search on the same graph with unit weights under the same
schedule (`run_asWeighted`), in binary64 arithmetic up to `2 ^ 53` relationships (`unit_weights`).
-/

namespace CommunityDetection

namespace Search

open Session

variable {σ α : Type} {state : State α}

def State.asWeighted (state : State α) : State α :=
  { state with level := { state.level with graph := state.level.graph.asWeighted } }

theorem alike_asWeighted (state : State α) : Alike state state.asWeighted := ⟨rfl, rfl, rfl⟩

theorem record_asWeighted (state : State α) :
    (Session.ofExcept state.record).Matches (fun first second => second = first.asWeighted)
      (Session.ofExcept state.asWeighted.record) := by
  have same : state.asWeighted.hierarchy.record state.asWeighted.level.graph
      state.asWeighted.level.assignment state.asWeighted.seeding =
        state.hierarchy.record state.level.graph state.level.assignment state.seeding := rfl
  unfold State.record
  rw [same]
  cases state.hierarchy.record state.level.graph state.level.assignment state.seeding with
  | error failure => exact matches_throw failure
  | ok hierarchy => exact matches_ofExcept rfl

variable [Scalar α]

theorem descend_asWeighted (plan : Plan σ α) (state : State α) :
    (descend plan state).Matches (fun first second => second = first.asWeighted)
      (descend plan state.asWeighted) := by
  have same : descend plan state.asWeighted = descend plan state := rfl
  rw [same]
  refine (Matches.refl _).of_gives fun next _ same gives _ => ?_
  subst same
  cases descend_gives gives with
  | intro => rfl

theorem commutes_asWeighted (plan : Plan σ α) : Commutes plan State.asWeighted where
  alike := alike_asWeighted
  moved _ _ := rfl
  complete _ _ := rfl
  record := record_asWeighted
  descend := descend_asWeighted plan

end Search

namespace Problem

open Session

variable {σ α : Type} [Scalar α] {G : Graph α} {config : Config α} {problem : Problem α} {bound : Nat}

def asWeighted (problem : Problem α) : Problem α := { problem with graph := problem.graph.asWeighted }

theorem carries_asWeighted (G : Graph α) (config : Config α) :
    Carries asWeighted G G.asWeighted config config := ⟨fun _ => rfl, rfl, rfl, rfl, rfl, rfl⟩

section Unit

variable (unit : problem.graph.Unit) (counts : Scalar.Counts α bound)
  (few : problem.graph.relationshipCount < bound)

include unit counts few

theorem setUp_asWeighted (additions : List Nat) :
    (problem.setUp additions).Matches (fun first second => second = (first.1.asWeighted, first.2))
      (problem.asWeighted.setUp additions) := by
  have volumes := unit.initial_asWeighted counts few
  have coefficients := unit.coefficient_asWeighted counts few
  refine Matches.stage (matches_bind_same fun start _ => matches_bind_same fun _ _ => matches_pure ?_) _
  unfold Problem.asWeighted Scale.of
  dsimp only
  rw [volumes, coefficients]
  rfl

theorem solve_asWeighted (sampler : Sampler σ α) :
    (problem.solve sampler).Matches (fun first second => first = second)
      (problem.asWeighted.solve sampler) := by
  refine (setUp_asWeighted unit counts few _).bind ?_
  rintro ⟨state, scale⟩ _ rfl - -
  refine ((Search.commutes_asWeighted _).iterate_matches _ state).bind ?_
  rintro ending _ rfl - -
  exact matches_bind_same fun _ _ => matches_pure rfl

theorem run_asWeighted (sampler : Sampler σ α) (watch : Watch α) :
    problem.asWeighted.run sampler watch = problem.run sampler watch :=
  ((solve_asWeighted unit counts few sampler).run watch).eq.symm

end Unit

/-- A graph without weights behaves as the graph of the same edges with weight one. With fewer than
`2 ^ 53` relationships both have the same volumes and the same scale, bit for bit, whether or not loops are
counted, so a search gives the same result and the same journal on both under the same schedule, and one with
a single worker under any. -/
theorem unit_weights {n : Nat} {pairs : List (Nat × Nat)} {G : Graph Float}
    (built : Graph.ofEdges n .undirected pairs = .ok G) (few : G.relationshipCount < 2 ^ 53) :
    ∃ H, Graph.ofWeightedEdges n .undirected (pairs.map fun pair => ⟨pair.1, pair.2, 1.0⟩) = .ok H ∧
      (∀ assignment countLoops concurrency turns,
        let volumes := Volumes.initial G assignment countLoops concurrency turns
        Volumes.initial H assignment countLoops concurrency turns = volumes ∧
          volumes.coefficient H countLoops = volumes.coefficient G countLoops) ∧
      (∀ properties config problem, Posed { G with properties } config problem →
        let weighted : Problem Float := { problem with graph := { H with properties } }
        Posed weighted.graph config weighted ∧ ∀ σ (sampler : Sampler σ Float) schedule watch,
          config.Alone n ∨ schedule = sampler.schedule →
            weighted.run (sampler.under schedule) watch = problem.run sampler watch) ∧
      ∀ properties (config : Config Float) entropy first second, config.Alone n ∨ first = second →
        findCommunities { H with properties } config entropy first =
          findCommunities { G with properties } config entropy second := by
  have unit := Graph.unit_of_ofEdges built
  have weighted : Graph.ofWeightedEdges n .undirected (pairs.map fun pair => ⟨pair.1, pair.2, 1.0⟩) =
      .ok G.asWeighted :=
    (Graph.ofWeightedEdges_unitEdges n .undirected pairs).trans (congrArg (Except.map _) built)
  -- Properties are not read by a search.
  have same (problem : Problem Float) (properties : List (String × Array (Option Nat)))
      (graph : problem.graph = { G with properties }) (σ : Type) (sampler : Sampler σ Float)
      (schedule : Schedule) (watch : Watch Float)
      (same : problem.config.Alone n ∨ schedule = sampler.schedule) :
      problem.asWeighted.run (sampler.under schedule) watch = problem.run sampler watch := by
    have runs : problem.asWeighted.run sampler watch = problem.run sampler watch := by
      refine run_asWeighted ?_ Binary.counts ?_ sampler watch
      · rw [graph]
        exact ⟨unit.unweighted, unit.ones⟩
      · rw [graph]
        exact few
    have nodes : problem.asWeighted.graph.nodeCount = n := by
      obtain ⟨-, rfl⟩ := Graph.build_ok built
      rw [asWeighted, graph]
      exact Graph.size_rowsOf _ _ _
    rw [run_under (by rw [nodes]; exact same), runs]
  refine ⟨G.asWeighted, weighted, fun assignment countLoops concurrency turns => ?_, ?_, ?_⟩
  · exact ⟨unit.initial_asWeighted Binary.counts few assignment countLoops concurrency turns,
      unit.coefficient_asWeighted Binary.counts few assignment countLoops concurrency turns⟩
  · intro properties config problem posed
    have graph := posed.fits.graph
    have runs := same problem properties graph
    have shape : ({ problem with graph := { G.asWeighted with properties } } : Problem Float) =
        problem.asWeighted := by rw [asWeighted, graph]; rfl
    dsimp only
    rw [shape, ← posed.fits.config]
    exact ⟨(carries_asWeighted { G with properties } _).posed (posed.fits.config.symm ▸ posed), runs⟩
  · intro properties config entropy first second schedules
    have posing := (carries_asWeighted { G with properties } config).pose
    cases accepted : Problem.pose { G with properties } config with
    | error fault =>
      rw [accepted] at posing
      exact (findCommunities_error posing entropy first).trans (findCommunities_error accepted entropy second).symm
    | ok problem =>
      rw [accepted] at posing
      have runs := same problem properties (pose_ok accepted).2.2.1 _ (problem.sampler entropy second) first
        (fun _ => false) ((pose_ok accepted).2.2.2.1 ▸ schedules)
      exact (findCommunities_ok posing entropy first).trans
        ((congrArg Prod.fst runs).trans (findCommunities_ok accepted entropy second).symm)

def parallel : Graph Float where
  orientation := .undirected
  weighted := false
  rows := Graph.rowsOf 4 .undirected (Graph.unitEdges [(0, 1), (1, 0), (2, 2), (0, 2)])
  translation := none
  properties := []

theorem unit_weights_parallel : ∃ H,
    Graph.ofEdges 4 .undirected [(0, 1), (1, 0), (2, 2), (0, 2)] = .ok parallel ∧
      Graph.ofWeightedEdges 4 .undirected [⟨0, 1, 1.0⟩, ⟨1, 0, 1.0⟩, ⟨2, 2, 1.0⟩, ⟨0, 2, 1.0⟩] = .ok H ∧
      ∀ config entropy schedule, findCommunities H config entropy schedule =
        findCommunities parallel config entropy schedule := by
  have built : Graph.ofEdges 4 .undirected [(0, 1), (1, 0), (2, 2), (0, 2)] = .ok parallel := rfl
  obtain ⟨H, weighted, -, -, found⟩ := unit_weights built (by decide +kernel)
  obtain ⟨-, rfl⟩ := Graph.build_ok weighted
  exact ⟨_, built, weighted, fun config entropy schedule => found [] config entropy _ _ (.inr rfl)⟩

/-- Under another schedule, the graph with unit weights has other communities. -/
theorem communities_asWeighted_contest_ne : ∃ H result other,
    Graph.ofEdges 1001 .undirected [(0, 1), (1, 1000)] = .ok contest.graph ∧
    Graph.ofWeightedEdges 1001 .undirected [⟨0, 1, 1.0⟩, ⟨1, 1000, 1.0⟩] = .ok H ∧
    findCommunities contest.graph contest.config 0 {} = .ok result ∧
    findCommunities H contest.config 0 .secondFirst = .ok other ∧ result.communities ≠ other.communities := by
  obtain ⟨result, inOrder, yields⟩ := findCommunities_contest_inOrder 0
  obtain ⟨other, raced, yielded⟩ := findCommunities_contest_secondFirst 0
  have weighted : Graph.ofWeightedEdges 1001 .undirected [⟨0, 1, 1.0⟩, ⟨1, 1000, 1.0⟩] =
      .ok contest.graph.asWeighted :=
    (Graph.ofWeightedEdges_unitEdges 1001 .undirected [(0, 1), (1, 1000)]).trans
      (congrArg (Except.map _) built_contest)
  have posing := (carries_asWeighted contest.graph contest.config).pose
  rw [pose_contest] at posing
  have few : contest.graph.relationshipCount < 2 ^ 53 :=
    (Nat.lt_of_le_of_lt (Nat.le_add_right _ _) contested_contest.light).trans (by decide)
  refine ⟨_, result, other, built_contest, weighted, inOrder, ?_, communities_contest_ne yields yielded⟩
  rw [findCommunities_ok posing]
  rw [findCommunities_ok pose_contest] at raced
  exact (congrArg Prod.fst (run_asWeighted (Graph.unit_of_ofEdges built_contest) Binary.counts few _ _)).trans raced

end Problem

end CommunityDetection
