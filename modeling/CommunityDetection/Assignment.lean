/-!
# Assignments of nodes to communities

An assignment gives the community of each node. `Assignment.groups` is the canonical form of the
partition it describes: lists of nodes in increasing order, ordered by their first nodes.
-/

namespace CommunityDetection

abbrev Assignment := Array Nat

namespace Assignment

def singletons (n : Nat) : Assignment := (List.range n).toArray

def of (assignment : Assignment) (node : Nat) : Nat := assignment.getD node 0

def assign (assignment : Assignment) (node community : Nat) : Assignment :=
  assignment.setIfInBounds node community

def insert : (groups : List (Nat × List Nat)) → (label node : Nat) → List (Nat × List Nat)
  | [], label, node => [(label, [node])]
  | (other, members) :: groups, label, node =>
    if other = label then (other, node :: members) :: groups
    else (other, members) :: insert groups label node

/-- The nodes of each community in increasing order, ordered by their first nodes. -/
def groups (assignment : Assignment) : List (List Nat) :=
  let gathered := assignment.toList.zipIdx.foldl (fun groups pair => insert groups pair.1 pair.2) []
  gathered.map fun group => group.2.reverse

def communityCount (assignment : Assignment) : Nat := assignment.groups.length

end Assignment

end CommunityDetection
