import CommunityDetection.Assignment
import CommunityDetection.Buckets
import CommunityDetection.Graph.Build
import CommunityDetection.Tally
import CommunityDetection.Volume

/-!
# Coarse graphs

The coarse graph of an assignment has one node per class, in the order of the class ids, which become
its original ids. The weights between two classes are added up, and those inside a class become a
loop, so that no weight is lost. `handover` carries a coarser assignment over to the coarse graph.
-/

namespace CommunityDetection

variable {α : Type}

namespace Coarsening

def present (classes : Assignment) (bound : Nat) : Array Bool :=
  classes.toList.foldl (fun present id => present.setIfInBounds id true)
    (Array.replicate bound false)

def ids (classes : Assignment) (bound : Nat) : List Nat :=
  let present := present classes bound
  (List.range bound).filter fun id => present.getD id false

def members (classes : Assignment) (mapped : Array (Option Nat)) (count : Nat) :
    Array (List Nat) :=
  Buckets.arrange count 0 (classes.toList.zipIdx.filterMap fun pair =>
    (mapped.getD pair.1 none).map fun coarse => (coarse, pair.2))

def coarseOf (classes : Assignment) (mapped : Array (Option Nat)) (node : Nat) : Nat :=
  (mapped.getD (classes.of node) none).getD 0

def relationships (G : Graph α) (classes : Assignment) (mapped : Array (Option Nat))
    (members : List Nat) : Row α :=
  members.flatMap fun member =>
    (G.row member).map fun entry => (coarseOf classes mapped entry.1, entry.2)

def graph [Scalar α] (G : Graph α) (classes : Assignment) (largest : Nat) : Graph α :=
  let bound := largest + 1
  let ids := (ids classes bound).toArray
  let mapped := (Graph.translationOf ids bound).mapped
  let rows := (members classes mapped ids.size).map fun members =>
    Tally.ofPairsSorted (relationships G classes mapped members)
  Graph.ofRows G.orientation rows ids bound

structure Handover (α : Type) where
  assignment : Assignment
  volumes : Volumes α
  named : List (Nat × Nat)

def Handover.extend [Scalar α] (coarse : Graph α) (assignment : Assignment)
    (classVolumes : Cells α) (handover : Handover α) (node : Nat) : Handover α :=
  let id := coarse.toOriginal node
  let community := assignment.of id
  let volume := classVolumes.read id
  let name := (handover.named.lookup community).getD node
  { assignment := handover.assignment.push name
    volumes :=
      { nodes := handover.volumes.nodes.push volume
        communities := handover.volumes.communities.add name volume }
    named :=
      if (handover.named.lookup community).isSome then handover.named
      else (community, node) :: handover.named }

/-- Carries an assignment over to a coarse graph whose classes lie inside its communities. A class id
is one of its members, so the community of the class is that of the id. -/
def handover [Scalar α] (coarse : Graph α) (assignment : Assignment) (classVolumes : Cells α) :
    Handover α :=
  (List.range coarse.nodeCount).foldl (Handover.extend coarse assignment classVolumes)
    { assignment := #[], volumes := ⟨#[], Cells.zeros coarse.nodeCount⟩, named := [] }

def Handover.communityCount (handover : Handover α) : Nat := handover.named.length

end Coarsening

end CommunityDetection
