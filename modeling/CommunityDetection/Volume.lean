import CommunityDetection.Assignment
import CommunityDetection.Cells
import CommunityDetection.Error
import CommunityDetection.Graph.Basic
import CommunityDetection.Schedule

/-!
# Volumes

The volume of a node is the summed weight of its row, and the volume of a community is the summed
volume of its members. Volumes are computed once, by `Volumes.initial`, where the workers of several
spans add to the same communities in turns; afterwards they are updated with every move, and
`Volumes.drift?` compares them with the sums again.
-/

namespace CommunityDetection

variable {α : Type} [Scalar α]

namespace Graph

/-- Whether volumes are degrees: without weights, and with loops counted. -/
def countsDegrees (G : Graph α) (countLoops : Bool) : Bool := !G.weighted && countLoops

def volume (G : Graph α) (countLoops : Bool) (node : Nat) : α :=
  if G.countsDegrees countLoops then (G.degree node : α)
  else
    let counted := (G.row node).filter fun entry => countLoops || entry.1 != node
    Scalar.total (counted.map Prod.snd)

end Graph

structure Volumes (α : Type) where
  nodes : Cells α
  communities : Cells α
deriving DecidableEq, Repr

namespace Volumes

def gather (assignment : Assignment) (nodes : Cells α) (sums : Cells α) (listed : List Nat) :
    Cells α :=
  listed.foldl (fun sums node => sums.add (assignment.of node) (nodes.read node)) sums

def initial (G : Graph α) (assignment : Assignment) (countLoops : Bool) (concurrency : Nat)
    (turns : List Nat := []) : Volumes α :=
  let spans := Span.even G.nodeCount concurrency Span.leastSize
  let nodes := (spans.flatMap fun span => span.nodes.map (G.volume countLoops)).toArray
  { nodes
    communities := gather assignment nodes (Cells.zeros G.nodeCount)
      (Schedule.interleave turns (spans.map Span.nodes)) }

/-- The scale of modularity: one over the total volume, or one if that is not positive. -/
def coefficient (G : Graph α) (countLoops : Bool) (volumes : Volumes α) : α :=
  let total :=
    if G.countsDegrees countLoops then (G.relationshipCount : α)
    else Scalar.sum volumes.nodes.toList
  if 0 < total then 1 / total else 1

/-- How far the volume of a community may be from the sum of its members: a millionth of the total
volume. -/
def tolerance (volumes : Volumes α) : α :=
  Scalar.ratio 1 1000000 * Scalar.sum (volumes.nodes.toList.map Scalar.abs)

def stray? (volumes : Volumes α) (assignment : Assignment) : Option (Inconsistency α) :=
  let ids := volumes.communities.size
  (List.range volumes.nodes.size).findSome? fun node =>
    if ids ≤ assignment.of node then
      some (.communityWithoutVolume node (assignment.of node) ids)
    else none

def memberSums (volumes : Volumes α) (assignment : Assignment) : Cells α :=
  gather assignment volumes.nodes (Cells.zeros volumes.communities.size)
    (List.range volumes.nodes.size)

def drift? (volumes : Volumes α) (assignment : Assignment) : Option (Inconsistency α) :=
  (volumes.stray? assignment).or <|
    let sums := volumes.memberSums assignment
    let tolerance := volumes.tolerance
    (List.range volumes.communities.size).findSome? fun community =>
      let actual := volumes.communities.read community
      let sum := sums.read community
      if tolerance < Scalar.abs (actual - sum) then some (.volumeDrift community actual sum)
      else none

end Volumes

end CommunityDetection
