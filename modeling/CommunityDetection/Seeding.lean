import CommunityDetection.Assignment
import CommunityDetection.Error
import CommunityDetection.Graph.Basic

/-!
# Seeds

A search starts from every node alone, or from seeds: nodes with one label start in one community,
nodes without a label alone. Inside the search communities have small ids; a seeding translates them
back, a community that holds a label to the label and any other to an id above all labels.
-/

namespace CommunityDetection

def labelBound : Nat := 1 <<< 64

inductive Seeding where
  /-- The search started from every node alone, which makes as many communities as nodes. -/
  | unseeded (communityCount : Nat)
  /-- The labels of communities, by id; the first entry of an id counts. -/
  | seeded (labels : List (Nat × Nat)) (offset communityCount : Nat)
deriving DecidableEq, Repr

namespace Seeding

variable {α : Type}

def largest? (seeds : List (Option Nat)) : Option Nat := (seeds.filterMap id).max?

/-- The first output id for communities without a label, one above the largest label. Where a node
has no label, ids for all nodes must be left above it. -/
def unlabelledOffset (seeds : List (Option Nat)) : Except (Error α) Nat :=
  let above := (largest? seeds).elim 0 (· + 1)
  if seeds.all Option.isSome then .ok (min above (labelBound - 1))
  else if above + (seeds.length - 1) < labelBound then .ok above
  else .error (.invalid (.seedsExhausted ((largest? seeds).getD 0) (seeds.count none)))

structure Numbering where
  communities : List Nat
  /-- The community of each label. -/
  known : List (Nat × Nat)
  /-- The label of each community. -/
  labels : List (Nat × Nat)
  next : Nat

def Numbering.extend (numbering : Numbering) : (seed : Option Nat) → Numbering
  | none =>
    { numbering with
      communities := numbering.next :: numbering.communities
      next := numbering.next + 1 }
  | some label =>
    match numbering.known.lookup label with
    | some community =>
      { numbering with communities := community :: numbering.communities }
    | none =>
      { communities := numbering.next :: numbering.communities
        known := (label, numbering.next) :: numbering.known
        labels := (numbering.next, label) :: numbering.labels
        next := numbering.next + 1 }

def number (seeds : List (Option Nat)) : Numbering :=
  seeds.foldl Numbering.extend { communities := [], known := [], labels := [], next := 0 }

def resolve (n : Nat) : (seeds : Option (Array (Option Nat))) →
    Except (Error α) (Assignment × Seeding)
  | none => .ok (Assignment.singletons n, .unseeded n)
  | some seeds => do
    let offset ← unlabelledOffset seeds.toList
    let numbering := number seeds.toList
    return (numbering.communities.reverse.toArray,
      .seeded numbering.labels offset numbering.next)

def communityCount : Seeding → Nat
  | unseeded count | seeded _ _ count => count

def isSeeded : Seeding → Bool
  | unseeded _ => false
  | seeded .. => true

def offset? : Seeding → Option Nat
  | unseeded _ => none
  | seeded _ offset _ => some offset

def label? : Seeding → (community : Nat) → Option Nat
  | unseeded _, _ => none
  | seeded labels _ _, community => labels.lookup community

def outputId : Seeding → (community : Nat) → Nat
  | unseeded _, community => community
  | seeded labels offset _, community =>
    match labels.lookup community with
    | some label => label
    | none => min (offset + community) (labelBound - 1)

/-- Carries the labels over to a coarse graph: the community of each coarse node gets the label of
the community that its class came from. -/
def carry (coarse : Graph α) (previous next : Assignment) : Seeding → Seeding
  | unseeded count => unseeded count
  | seeded labels offset count =>
    let carried := next.toList.zipIdx.foldl
      (fun carried pair =>
        match labels.lookup (previous.of (coarse.toOriginal pair.2)) with
        | some label => (pair.1, label) :: carried
        | none => carried)
      []
    seeded carried offset count

end Seeding

end CommunityDetection
