import CommunityDetection.Search.Iteration

/-!
# Problems and their solution

A problem is an undirected graph with a valid configuration and, where the search is to start from
them, seeds. `Problem.solve` runs the search and returns its result with the journal.
-/

namespace CommunityDetection

structure Problem (α : Type) where
  graph : Graph α
  config : Config α
  seeds : Option (Array (Option Nat))

namespace Problem

variable {σ α : Type}

def checkSeeds (G : Graph α) (seeds : Array (Option Nat)) : Except (Error α) Unit := do
  if seeds.size ≠ G.nodeCount then throw (.invalid (.seedSize G.nodeCount seeds.size))
  let _ ← Seeding.unlabelledOffset (α := α) seeds.toList

def pose [Scalar α] (G : Graph α) (config : Config α) : Except (Error α) (Problem α) := do
  config.validate
  if G.orientation ≠ .undirected then throw (.invalid .directed)
  match config.seedProperty with
  | none => return { graph := G, config, seeds := none }
  | some name =>
    match G.property? name with
    | none => throw (.invalid (.propertyMissing name))
    | some seeds =>
      checkSeeds G seeds
      return { graph := G, config, seeds := some seeds }

def withSeeds (problem : Problem α) (seeds : Array (Option Nat)) :
    Except (Error α) (Problem α) := do
  checkSeeds problem.graph seeds
  return { problem with seeds := some seeds }

variable [Scalar α]

def setUp (problem : Problem α) (additions : List Nat) : Session α (Search.State α × Scale α) :=
  Session.stage .initialization do
    let G := problem.graph
    let config := problem.config
    let (assignment, seeding) ← Session.ofExcept (Seeding.resolve G.nodeCount problem.seeds)
    Session.checkpoint G.nodeCount
    let volumes := Volumes.initial G assignment config.countLoops config.concurrency additions
    let level : Level α :=
      { graph := G, assignment, volumes, communityCount := seeding.communityCount }
    return ({ toTracker := .start
              level, seeding
              hierarchy := Hierarchy.start G.nodeCount config.keepLevels },
      Scale.of G config.countLoops volumes config.gamma)

def solve (problem : Problem α) (sampler : Sampler σ α) : Session α (Result α) := do
  let (state, scale) ← problem.setUp sampler.schedule.additions
  let ending ← Search.iterate { config := problem.config, scale, sampler }
    problem.config.maxLevels state
  let last := ending.state
  Session.note (.stopped last.iteration ending.terminalState last.hierarchy.levelCount)
  return ending.result problem.graph.nodeCount

def run (problem : Problem α) (sampler : Sampler σ α) (watch : Watch α) :
    Except (Error α) (Result α) × List (Entry α) :=
  Session.run watch (problem.solve sampler)

def sampler (problem : Problem Float) (entropy : BitVec 64) (schedule : Schedule := {}) :
    Sampler Random.Generator Float :=
  { Sampler.boltzmann Float.exp problem.config.theta (problem.config.randomSeed.getD entropy) with
    schedule }

end Problem

def findCommunities (G : Graph Float) (config : Config Float) (entropy : BitVec 64)
    (schedule : Schedule := {}) : Except (Error Float) (Result Float) := do
  let problem ← Problem.pose G config
  (problem.run (problem.sampler entropy schedule) fun _ => false).1

end CommunityDetection
