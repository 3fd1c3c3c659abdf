import CommunityDetection.Coarsening
import CommunityDetection.LocalMove
import CommunityDetection.Modularity
import CommunityDetection.Refinement
import CommunityDetection.Seeding

/-!
# Levels of the search

A level is a graph with an assignment of its nodes and its volumes. The search moves the nodes of a
level, refines its communities, and goes on to the coarse level of the refined parts, which starts
from the communities that the moves led to.
-/

namespace CommunityDetection

structure Level (α : Type) where
  graph : Graph α
  assignment : Assignment
  volumes : Volumes α
  communityCount : Nat

structure Scale (α : Type) where
  coefficient : α
  gamma : α
deriving DecidableEq, Repr

def Scale.of {α : Type} [Scalar α] (G : Graph α) (countLoops : Bool) (volumes : Volumes α)
    (resolution : α) : Scale α :=
  let coefficient := volumes.coefficient G countLoops
  { coefficient, gamma := resolution * coefficient }

namespace Level

variable {α : Type} [Scalar α]

def moveSetting (level : Level α) (scale : Scale α) (concurrency : Nat)
    (turns : (pass : Nat) → List Turn := fun _ => []) : LocalMove.Setting α where
  graph := level.graph
  nodeVolumes := level.volumes.nodes
  gamma := scale.gamma
  concurrency := concurrency
  turns := turns

def moveStart (level : Level α) : Except (Inconsistency α) (LocalMove.State α) :=
  LocalMove.start level.graph.nodeCount level.assignment level.volumes.communities
    level.communityCount

def moved (level : Level α) (state : LocalMove.State α) : Level α :=
  { level with
    assignment := state.assignment
    volumes := { level.volumes with communities := state.communityVolumes }
    communityCount := state.occupied }

def modularity (level : Level α) (scale : Scale α) (concurrency : Nat) : α :=
  level.graph.modularity level.assignment level.volumes.communities scale.gamma
    scale.coefficient concurrency

def refine {σ : Type} (level : Level α) (scale : Scale α) (concurrency : Nat)
    (sampler : Sampler σ α) : StateM σ (Refinement.Result α) :=
  Refinement.run
    { graph := level.graph
      assignment := level.assignment
      nodeVolumes := level.volumes.nodes
      communityVolumes := level.volumes.communities
      gamma := scale.gamma
      concurrency }
    sampler

def coarsen (level : Level α) (refined : Refinement.Result α) : Level α :=
  let graph := Coarsening.graph level.graph refined.parts refined.largest
  let handover := Coarsening.handover graph level.assignment refined.volumes
  { graph
    assignment := handover.assignment
    volumes := handover.volumes
    communityCount := handover.communityCount }

end Level

end CommunityDetection
