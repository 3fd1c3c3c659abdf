import CommunityDetection.Sampler
import CommunityDetection.Tally
import CommunityDetection.Volume

/-!
# Refinement

Refinement splits each community into well connected parts. Every node starts alone. The nodes are
visited once each; one that is still alone and well connected to its community may merge with a well
connected part of the same community. The part is chosen among those with a gain that is not
negative, staying alone included. A part is named by its first member, which never moves.
-/

namespace CommunityDetection.Refinement

variable {α : Type} [Scalar α]

structure Setting (α : Type) where
  graph : Graph α
  assignment : Assignment
  nodeVolumes : Cells α
  communityVolumes : Cells α
  gamma : α
  concurrency : Nat

def Setting.inner (setting : Setting α) (node : Nat) : Row α :=
  (setting.graph.row node).filter fun entry =>
    entry.1 != node && setting.assignment.of entry.1 == setting.assignment.of node

def Setting.innerWeights (setting : Setting α) : Cells α :=
  let spans := Span.even setting.graph.nodeCount setting.concurrency Span.leastSize
  (spans.flatMap fun span => span.nodes.map fun node =>
    Scalar.total ((setting.inner node).map Prod.snd)).toArray

structure State (α : Type) where
  parts : Assignment
  volumes : Cells α
  /-- The weight from each part to the rest of its community. -/
  cuts : Cells α
  /-- Whether each node is the only member of the part it names. -/
  alone : Array Bool
deriving DecidableEq, Repr

def Setting.start (setting : Setting α) (inner : Cells α) : State α :=
  let n := setting.graph.nodeCount
  { parts := Assignment.singletons n
    volumes := setting.nodeVolumes
    cuts := inner
    alone := Array.replicate n true }

def Setting.whole (setting : Setting α) (node : Nat) : α :=
  setting.communityVolumes.read (setting.assignment.of node)

/-- The weight that a part with the given volume needs to the rest of a community with volume
`whole` to be well connected to it. -/
def needed (gamma volume whole : α) : α := volume * (whole - volume) * gamma

def weights (setting : Setting α) (state : State α) (node : Nat) : Tally α :=
  Tally.ofPairs ((setting.inner node).map fun entry => (state.parts.of entry.1, entry.2))

/-- The gain of merging a node with a part, if the part is a candidate: it is well connected and the
gain is not negative. -/
def candidate? (setting : Setting α) (state : State α) (node : Nat) (part : Nat × α) :
    Option (Nat × α) :=
  let volume := state.volumes.read part.1
  let gain := part.2 - setting.nodeVolumes.read node * volume * setting.gamma
  if needed setting.gamma volume (setting.whole node) ≤ state.cuts.read part.1 ∧ 0 ≤ gain then
    some (part.1, gain)
  else none

def candidates (setting : Setting α) (state : State α) (node : Nat) (weights : Tally α) :
    List (Nat × α) :=
  (node, 0) :: weights.filterMap (candidate? setting state node)

def maxGain (candidates : List (Nat × α)) : α :=
  candidates.foldl (fun largest candidate => Scalar.max largest candidate.2) 0

def State.merge (state : State α) (node part : Nat) (volume inner toPart : α) : State α where
  parts := state.parts.assign node part
  volumes := (state.volumes.add part volume).write node 0
  cuts := state.cuts.add part (inner - ((2 : Nat) : α) * toPart)
  alone := (state.alone.setIfInBounds part false).setIfInBounds node false

def mayMerge (setting : Setting α) (inner : Cells α) (state : State α) (node : Nat) : Bool :=
  state.alone.getD node false &&
    !decide (inner.read node <
      needed setting.gamma (setting.nodeVolumes.read node) (setting.whole node))

def visit {σ : Type} (setting : Setting α) (sampler : Sampler σ α) (inner : Cells α)
    (state : State α) (node : Nat) : StateM σ (State α) :=
  if mayMerge setting inner state node then do
    let weights := weights setting state node
    let candidates := candidates setting state node weights
    let part ← sampler.choose candidates (maxGain candidates)
    if part = node then return state
    else
      return state.merge node part (setting.nodeVolumes.read node) (inner.read node)
        (weights.get part)
  else return state

structure Result (α : Type) where
  parts : Assignment
  volumes : Cells α
deriving DecidableEq, Repr

def Result.largest (result : Result α) : Nat := result.parts.foldl max 0

def run {σ : Type} (setting : Setting α) (sampler : Sampler σ α) : StateM σ (Result α) := do
  let order ← sampler.order setting.graph.nodeCount
  let inner := setting.innerWeights
  let state ← order.foldlM (visit setting sampler inner) (setting.start inner)
  return { parts := state.parts, volumes := state.volumes }

end CommunityDetection.Refinement
