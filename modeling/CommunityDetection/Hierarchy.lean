import CommunityDetection.Seeding

/-!
# Hierarchies of levels

A level gives the output community of each root node. A hierarchy collects the levels of a search and
keeps the chain from the root nodes to the graph that the search works on: the class of each root
node, as an original id of that graph.
-/

namespace CommunityDetection

structure Dendrogram where
  levels : Array (Array Nat)
deriving DecidableEq, Repr

namespace Dendrogram

def levelCount (dendrogram : Dendrogram) : Nat := dendrogram.levels.size

def current? (dendrogram : Dendrogram) : Option (Array Nat) := dendrogram.levels.back?

def communityOf? (dendrogram : Dendrogram) (level node : Nat) : Option Nat := do
  (← dendrogram.levels[level]?)[node]?

end Dendrogram

structure Hierarchy where
  /-- Whether every level is kept; else only the last. -/
  keepAll : Bool
  levels : Array (Array Nat)
  /-- The class of each root node, as an original id of the current graph. -/
  chain : Array Nat
deriving DecidableEq, Repr

namespace Hierarchy

variable {α : Type}

def start (n : Nat) (keepAll : Bool) : Hierarchy where
  keepAll := keepAll
  levels := #[]
  chain := (List.range n).toArray

def translate (hierarchy : Hierarchy) (G : Graph α) (value : Nat → Nat) :
    Except (Error α) (Array Nat) :=
  List.toArray <$> hierarchy.chain.toList.zipIdx.mapM fun pair =>
    match G.toMapped? pair.1 with
    | some node => .ok (value node)
    | none => .error (.inconsistent (.rootLost pair.2 pair.1))

def record (hierarchy : Hierarchy) (G : Graph α) (assignment : Assignment) (seeding : Seeding) :
    Except (Error α) Hierarchy := do
  let level ← hierarchy.translate G fun node => seeding.outputId (assignment.of node)
  return { hierarchy with
    levels := if hierarchy.keepAll then hierarchy.levels.push level else #[level] }

def descend (hierarchy : Hierarchy) (G : Graph α) (classes : Assignment) :
    Except (Error α) Hierarchy := do
  return { hierarchy with chain := ← hierarchy.translate G classes.of }

def current? (hierarchy : Hierarchy) : Option (Array Nat) := hierarchy.levels.back?

def levelCount (hierarchy : Hierarchy) : Nat := hierarchy.levels.size

def dendrogram? (hierarchy : Hierarchy) : Option Dendrogram :=
  if hierarchy.keepAll then some ⟨hierarchy.levels⟩ else none

end Hierarchy

end CommunityDetection
