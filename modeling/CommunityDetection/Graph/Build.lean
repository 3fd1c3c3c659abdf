import CommunityDetection.Buckets
import CommunityDetection.Error
import CommunityDetection.Graph.Basic

/-!
# Building graphs

Graphs are built from lists of edges, which are checked, or from rows. A row built from edges lists
them in the order given; an undirected edge enters the rows of both its ends, a loop only once.
-/

namespace CommunityDetection

structure Edge (α : Type) where
  source : Nat
  target : Nat
  weight : α
deriving DecidableEq, Repr

namespace Edge

variable {α : Type}

/-- The first fault of an edge on the nodes below `n`: its ends are checked before its weight. -/
def fault? [Scalar α] (n : Nat) (edge : Edge α) : Option (InvalidInput α) :=
  if n ≤ edge.source ∨ n ≤ edge.target then
    some (.relationshipOutside edge.source edge.target n)
  else if 0 < edge.weight ∧ Scalar.isFinite edge.weight then none
  else some .weightNotPositive

/-- The nodes that an edge is traversed from, each with the entry of its row: both ends of an undirected edge,
but that of a loop only once. -/
def traversals (orientation : Orientation) (edge : Edge α) : List (Nat × Nat × α) :=
  (edge.source, edge.target, edge.weight) ::
    if orientation = .undirected ∧ edge.source ≠ edge.target then
      [(edge.target, edge.source, edge.weight)]
    else []

end Edge

namespace Graph

variable {α : Type}

def rowsOf [Scalar α] (n : Nat) (orientation : Orientation) (edges : List (Edge α)) :
    Array (Row α) :=
  Buckets.arrange n (0, 0) (edges.flatMap (Edge.traversals orientation))

def build [Scalar α] (n : Nat) (orientation : Orientation) (weighted : Bool)
    (edges : List (Edge α)) : Except (Error α) (Graph α) :=
  match edges.findSome? (Edge.fault? n) with
  | some fault => .error (.invalid fault)
  | none =>
    .ok { orientation, weighted, rows := rowsOf n orientation edges, translation := none
          properties := [] }

def ofEdges [Scalar α] (n : Nat) (orientation : Orientation) (edges : List (Nat × Nat)) :
    Except (Error α) (Graph α) :=
  build n orientation false (edges.map fun edge => ⟨edge.1, edge.2, 1⟩)

def ofWeightedEdges [Scalar α] (n : Nat) (orientation : Orientation) (edges : List (Edge α)) :
    Except (Error α) (Graph α) :=
  build n orientation true edges

/-- The translation of nodes with the listed original ids, all below `bound`. Of two nodes with one
id the later one is found. -/
def translationOf (original : Array Nat) (bound : Nat) : Translation where
  original := original
  mapped := original.toList.zipIdx.foldl
    (fun mapped pair => mapped.setIfInBounds pair.1 (some pair.2)) (Array.replicate bound none)

def ofRows (orientation : Orientation) (rows : Array (Row α)) (original : Array Nat)
    (bound : Nat) : Graph α where
  orientation := orientation
  weighted := true
  rows := rows
  translation := some (translationOf original bound)
  properties := []

def withProperty (G : Graph α) (name : String) (values : Array (Option Nat)) :
    Except (Error α) (Graph α) :=
  if values.size = G.nodeCount then .ok { G with properties := (name, values) :: G.properties }
  else .error (.invalid (.propertySize G.nodeCount values.size))

end Graph

end CommunityDetection
