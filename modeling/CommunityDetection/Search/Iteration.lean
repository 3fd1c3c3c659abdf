import CommunityDetection.Config
import CommunityDetection.Hierarchy
import CommunityDetection.Progress.Journal
import CommunityDetection.Search.Level

/-!
# Iterations of the search

An iteration moves the nodes of its level, measures the modularity and records the communities as a
level of the hierarchy; while iterations are left, it then refines the communities and goes on with
the coarse level. `Search.step` runs one iteration, and `Search.iterate` runs iterations until one
moves nothing, until the modularity decreases or hardly grows, or until none is left.
-/

namespace CommunityDetection.Search

variable {σ α : Type}

structure Plan (σ α : Type) where
  config : Config α
  scale : Scale α
  sampler : Sampler σ α

structure Tracker (α : Type) where
  iteration : Nat
  modularities : Array α
  latest : α

def Tracker.start [Zero α] : Tracker α := { iteration := 0, modularities := #[], latest := 0 }

def Tracker.complete (tracker : Tracker α) (modularity : α) : Tracker α where
  iteration := tracker.iteration + 1
  modularities := tracker.modularities.push modularity
  latest := modularity

structure State (α : Type) extends Tracker α where
  level : Level α
  seeding : Seeding
  hierarchy : Hierarchy

def State.complete (state : State α) (modularity : α) : State α :=
  { state with toTracker := state.toTracker.complete modularity }

def State.record (state : State α) : Except (Error α) (State α) := do
  let hierarchy ← state.hierarchy.record state.level.graph state.level.assignment state.seeding
  return { state with hierarchy }

inductive Progress where
  | decreased
  | slight
  | substantial
deriving DecidableEq, Repr

def Progress.of [Scalar α] (tolerance : α) (previous : Option α) (modularity : α) : Progress :=
  match previous with
  | none => substantial
  | some previous =>
    let difference := modularity - previous
    if difference < 0 then decreased
    else if difference < tolerance then slight
    else substantial

structure Ending (α : Type) where
  state : State α
  didConverge : Bool
  terminalState : TerminalState
  /-- The modularity of seeds that could not be improved. -/
  ofSeeds : Option α

variable [Scalar α]

def State.moveSetting (state : State α) (plan : Plan σ α) : LocalMove.Setting α :=
  state.level.moveSetting plan.scale plan.config.concurrency (plan.sampler.schedule.turns state.iteration)

def moveNodes (plan : Plan σ α) (state : State α) : Session α (State α × Nat) :=
  Session.stage .localMove do
    let level := state.level
    let start ← Session.ofExcept (level.moveStart.mapError .inconsistent)
    Session.checkpoint level.graph.nodeCount
    let report := LocalMove.run (state.moveSetting plan) start
    report.passes.zipIdx.forM fun pass => Session.note (.passed (pass.2 + 1) pass.1)
    match report.failure? with
    | some failure => throw failure
    | none => return ({ state with level := level.moved report.state }, report.moves)

def measure (plan : Plan σ α) (state : State α) : Session α α :=
  Session.stage .modularity do
    Session.checkpoint state.level.graph.nodeCount
    return state.level.modularity plan.scale plan.config.concurrency

def refine (plan : Plan σ α) (state : State α) :
    Session α (Hierarchy × Refinement.Result α) :=
  Session.stage .refinement do
    let level := state.level
    Session.checkpoint level.graph.nodeCount
    let draws := plan.sampler.start state.iteration
    let refined := (level.refine plan.scale plan.config.concurrency plan.sampler draws).1
    let hierarchy ← Session.ofExcept (state.hierarchy.descend level.graph refined.parts)
    return (hierarchy, refined)

def coarsen (state : State α) (hierarchy : Hierarchy) (refined : Refinement.Result α) :
    Session α (State α) :=
  Session.stage .aggregation do
    let level := state.level
    Session.checkpoint level.graph.nodeCount
    let coarse := level.coarsen refined
    Session.note
      (.aggregated level.graph.nodeCount coarse.graph.nodeCount coarse.communityCount)
    return { state with
      level := coarse
      hierarchy
      seeding := state.seeding.carry coarse.graph level.assignment coarse.assignment }

def descend (plan : Plan σ α) (state : State α) : Session α (State α) := do
  let (hierarchy, refined) ← refine plan state
  coarsen state hierarchy refined

inductive Outcome (α : Type) where
  | ended (ending : Ending α)
  | completed (state : State α)

def step (plan : Plan σ α) (further : Bool) (state : State α) : Session α (Outcome α) := do
  Session.report (.begins .iteration)
  let (state, moves) ← moveNodes plan state
  let communities := state.level.communityCount
  let settled := moves == 0 || communities == state.level.graph.nodeCount
  let seedsOptimal := settled && state.seeding.isSeeded && state.iteration == 0
  let measured ← if !settled || seedsOptimal then some <$> measure plan state else pure none
  let modularity := measured.getD 0
  Session.report (.summary state.iteration moves communities modularity)
  if settled then
    Session.report (.ends .iteration)
    return .ended { state, didConverge := true, terminalState := .converged, ofSeeds := measured }
  match Progress.of plan.config.tolerance state.modularities.back? modularity with
  | .decreased =>
    Session.note (.decreased state.iteration)
    Session.report (.ends .iteration)
    return .ended
      { state, didConverge := false, terminalState := .toleranceExhausted, ofSeeds := none }
  | .slight =>
    let state ← Session.ofExcept state.record
    Session.report (.ends .iteration)
    let state := state.complete modularity
    return .ended { state, didConverge := true, terminalState := .converged, ofSeeds := none }
  | .substantial =>
    let state ← Session.ofExcept state.record
    let state ← if further then descend plan state else pure state
    Session.report (.ends .iteration)
    return .completed (state.complete modularity)

def iterate (plan : Plan σ α) : (left : Nat) → (state : State α) → Session α (Ending α)
  | 0, state =>
    return { state, didConverge := false, terminalState := .maxIterationsReached, ofSeeds := none }
  | left + 1, state => do
    match ← step plan (left != 0) state with
    | .ended ending => return ending
    | .completed state => iterate plan left state

/-- The result of a search over a graph with `n` nodes. Seeds that could not be improved are returned
as one iteration without levels. Else the communities are those of the last level; where none was
recorded, the first iteration moved nothing and the communities are still those of the start. -/
def Ending.result (ending : Ending α) (n : Nat) : Result α :=
  let state := ending.state
  let current := ((List.range n).map fun node =>
    state.seeding.outputId (state.level.assignment.of node)).toArray
  match ending.ofSeeds with
  | some modularity =>
    { communities := current
      ranIterations := 1
      didConverge := ending.didConverge
      terminalState := ending.terminalState
      dendrogram := none
      modularities := [modularity]
      modularity }
  | none =>
    { communities := state.hierarchy.current?.getD current
      ranIterations := state.iteration
      didConverge := ending.didConverge
      terminalState := ending.terminalState
      dendrogram := state.hierarchy.dendrogram?
      modularities := state.modularities.toList
      modularity := state.latest }

end CommunityDetection.Search
