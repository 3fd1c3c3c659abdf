import CommunityDetection.Schedule
import CommunityDetection.Tally
import CommunityDetection.Volume

/-!
# Visits

A visited node moves to the neighbouring community with the best gain. The gain of node `v` in
community `C` is `w(v, C) - gamma * vol(v) * vol(C)`, where `v` itself is left out of its own
community, and only a strictly better gain makes it move. A node that moves wakes its neighbours in
other communities for the next pass. `Pass.visit` is a visit during which nothing else happens.
-/

namespace CommunityDetection.LocalMove

variable {α : Type} [Scalar α]

structure Setting (α : Type) where
  graph : Graph α
  nodeVolumes : Cells α
  gamma : α
  concurrency : Nat
  /-- The turns of the workers in each pass. -/
  turns : (pass : Nat) → List Turn := fun _ => []

structure State (α : Type) where
  assignment : Assignment
  communityVolumes : Cells α
  sizes : Array Nat
  occupied : Nat
deriving DecidableEq, Repr

def State.sizeOf (state : State α) (community : Nat) : Nat := state.sizes.getD community 0

def countSizes (n : Nat) (assignment : Assignment) : Array Nat :=
  (List.range n).foldl
    (fun sizes node =>
      let community := assignment.of node
      sizes.setIfInBounds community (sizes.getD community 0 + 1))
    (Array.replicate n 0)

def start (n : Nat) (assignment : Assignment) (communityVolumes : Cells α) (tracked : Nat) :
    Except (Inconsistency α) (State α) :=
  if n < tracked then .error (.moreCommunitiesThanNodes tracked n)
  else
    match (List.range n).find? fun node => n ≤ assignment.of node with
    | some node => .error (.communityOutOfRange (assignment.of node) n)
    | none =>
      let sizes := countSizes n assignment
      let found := sizes.toList.countP (0 < ·)
      if found = tracked then .ok { assignment, communityVolumes, sizes, occupied := tracked }
      else .error (.communityCount tracked found)

def weights (setting : Setting α) (assignment : Assignment) (node : Nat) : Tally α :=
  let others := (setting.graph.row node).filter fun entry => entry.1 != node
  Tally.ofPairs (others.map fun entry => (assignment.of entry.1, entry.2))

/-- The gain of a node with the given volume in a community, from the weight between them and the
volume of the community without the node. -/
def gain (gamma volume weight rest : α) : α := weight - volume * rest * gamma

/-- Two nodes that are both alone only join towards the smaller id. -/
def barred (state : State α) (home candidate : Nat) : Bool :=
  state.sizeOf home == 1 && decide (home < candidate) && state.sizeOf candidate == 1

/-- The best community for a node, with its gain: its own one unless a later candidate has a
strictly better gain. -/
def best (setting : Setting α) (state : State α) (node : Nat) : Nat × α :=
  let home := state.assignment.of node
  let volume := setting.nodeVolumes.read node
  let weights := weights setting state.assignment node
  let stay := gain setting.gamma volume (weights.get home)
    (state.communityVolumes.read home - volume)
  weights.foldl
    (fun best candidate =>
      if candidate.1 = home ∨ barred state home candidate.1 then best
      else
        let value := gain setting.gamma volume candidate.2
          (state.communityVolumes.read candidate.1)
        if best.2 < value then (candidate.1, value) else best)
    (home, stay)

def target? (setting : Setting α) (state : State α) (node : Nat) : Option Nat :=
  let community := (best setting state node).1
  if community = state.assignment.of node then none else some community

def State.move (state : State α) (node : Nat) (volume : α) (community : Nat) : State α :=
  let home := state.assignment.of node
  let left := state.sizeOf home
  let sizes := state.sizes.setIfInBounds home (left - 1)
  -- The size is read after the node has left its own community.
  let entered := sizes.getD community 0
  { assignment := state.assignment.assign node community
    communityVolumes := (state.communityVolumes.add home (-volume)).add community volume
    sizes := sizes.setIfInBounds community (entered + 1)
    occupied := state.occupied - (if left = 1 then 1 else 0) + (if entered = 0 then 1 else 0) }

structure Pass (α : Type) where
  state : State α
  moves : Nat
  awake : Array Bool

def wake (G : Graph α) (assignment : Assignment) (node community : Nat) (awake : Array Bool) :
    Array Bool :=
  (G.row node).foldl
    (fun awake entry =>
      if entry.1 ≠ node ∧ assignment.of entry.1 ≠ community then awake.setIfInBounds entry.1 true
      else awake)
    awake

def Pass.visit (setting : Setting α) (active : Array Bool) (pass : Pass α) (node : Nat) : Pass α :=
  if active.getD node false then
    match target? setting pass.state node with
    | none => pass
    | some community =>
      let state := pass.state.move node (setting.nodeVolumes.read node) community
      { state
        moves := pass.moves + 1
        awake := wake setting.graph state.assignment node community pass.awake }
  else pass

end CommunityDetection.LocalMove
