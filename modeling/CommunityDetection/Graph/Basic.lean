import CommunityDetection.Scalar
import CommunityDetection.Span

/-!
# Graphs

A graph is read by rows: the row of a node lists the relationships traversed from it, in order,
with targets and weights. A graph that was derived from another one also translates its node ids to
the ids of that graph and back.
-/

namespace CommunityDetection

inductive Orientation where
  | undirected
  | natural
deriving DecidableEq, Repr

/-- The targets and weights of the relationships traversed from a node, in order. -/
abbrev Row (α : Type) := List (Nat × α)

structure Translation where
  original : Array Nat
  mapped : Array (Option Nat)
deriving DecidableEq, Repr

/-- A graph on the nodes below the number of its rows. -/
structure Graph (α : Type) where
  orientation : Orientation
  /-- Whether the relationships carry weights of their own; else every weight is one. -/
  weighted : Bool
  rows : Array (Row α)
  /-- Absent where nodes keep their ids. -/
  translation : Option Translation
  /-- Optional natural numbers per node, by name; the first entry of a name counts. -/
  properties : List (String × Array (Option Nat))

namespace Graph

variable {α : Type}

def nodeCount (G : Graph α) : Nat := G.rows.size

def row (G : Graph α) (node : Nat) : Row α := G.rows.getD node []

def degree (G : Graph α) (node : Nat) : Nat := (G.row node).length

def degrees (G : Graph α) : List Nat := G.rows.toList.map List.length

/-- The number of relationships; an undirected one counts once for each direction. -/
def relationshipCount (G : Graph α) : Nat := G.degrees.foldl (· + ·) 0

/-- The row of a node with `fallback` for the weights of a graph without weights. -/
def neighbors (G : Graph α) (node : Nat) (fallback : α) : Row α :=
  if G.weighted then G.row node else (G.row node).map fun entry => (entry.1, fallback)

def toOriginal (G : Graph α) (node : Nat) : Nat :=
  match G.translation with
  | none => node
  | some translation => translation.original.getD node 0

def toMapped? (G : Graph α) (id : Nat) : Option Nat :=
  match G.translation with
  | none => if id < G.nodeCount then some id else none
  | some translation => translation.mapped.getD id none

def property? (G : Graph α) (name : String) : Option (Array (Option Nat)) :=
  G.properties.lookup name

def spans (G : Graph α) (concurrency : Nat) : List Span :=
  Span.byDegree G.degrees concurrency Span.leastSize

def withoutProperties (G : Graph α) : Graph α := { G with properties := [] }

def bare (G : Graph α) : Graph α := { G with translation := none, properties := [] }

end Graph

end CommunityDetection
