import CommunityDetection.Assignment
import CommunityDetection.Cells
import CommunityDetection.Graph.Basic

/-!
# Modularity

The modularity of an assignment is `coefficient * (intra - gamma * square)`: `intra` is the weight of
the relationships inside communities, and `square` is the sum of the squared community volumes.
-/

namespace CommunityDetection

variable {α : Type} [Scalar α]

namespace Graph

def intraWeights (G : Graph α) (assignment : Assignment) (node : Nat) : List α :=
  ((G.row node).filter fun entry => assignment.of entry.1 == assignment.of node).map Prod.snd

def intraWeight (G : Graph α) (assignment : Assignment) (span : Span) : α :=
  Scalar.total (span.nodes.flatMap (G.intraWeights assignment))

def modularity (G : Graph α) (assignment : Assignment) (communityVolumes : Cells α)
    (gamma coefficient : α) (concurrency : Nat) : α :=
  let intra := Scalar.sum ((G.spans concurrency).map (G.intraWeight assignment))
  let square := Scalar.sum (communityVolumes.toList.map fun volume => volume * volume)
  (intra - square * gamma) * coefficient

end Graph

end CommunityDetection
