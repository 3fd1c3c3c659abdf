import CommunityDetection.Assignment
import CommunityDetection.KeyMap

/-!
# Grouping by a map

The groups of an assignment come from a map of the nodes of each label. The map lists its entries in an order
of its own, so the groups are sorted by their first nodes in the end.
-/

namespace CommunityDetection.Assignment

/-- The first node of a group; of none, the largest word. -/
def first (group : List Nat) : Nat := group.headD ((1 <<< 64) - 1)

def sortGroups (groups : List (List Nat)) : List (List Nat) :=
  groups.mergeSort fun left right => first left ≤ first right

variable {M : Type} (map : KeyMap M (List Nat))

def collect (state : M) (label node : Nat) : M :=
  map.insert state label ((map.find? state label).getD [] ++ [node])

def gather (labels : Assignment) : M :=
  labels.toList.zipIdx.foldl (fun state pair => collect map state pair.1 pair.2) map.new

def gatheredGroups (labels : Assignment) : List (List Nat) :=
  sortGroups ((map.entries (gather map labels)).map Prod.snd)

end CommunityDetection.Assignment
