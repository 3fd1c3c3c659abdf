import CommunityDetection.Scalar

/-!
# Sums by key

A tally adds up weights by key and lists the keys in the order of their first weight, so nothing
read from it depends on how the keys are stored. `Tally.ofPairs` is the tally of a list of weighted
keys.
-/

namespace CommunityDetection

/-- Keys, each listed once, with the sums of their weights. -/
abbrev Tally (α : Type) := List (Nat × α)

namespace Tally

variable {α : Type} [Scalar α]

def add : Tally α → (key : Nat) → (weight : α) → Tally α
  | [], key, weight => [(key, weight)]
  | (other, sum) :: rest, key, weight =>
    if other = key then (other, sum + weight) :: rest
    else (other, sum) :: add rest key weight

def get (tally : Tally α) (key : Nat) : α := (tally.lookup key).getD 0

def ofPairs (pairs : List (Nat × α)) : Tally α :=
  pairs.foldl (fun tally pair => tally.add pair.1 pair.2) []

def addSorted : Tally α → (key : Nat) → (weight : α) → Tally α
  | [], key, weight => [(key, weight)]
  | (other, sum) :: rest, key, weight =>
    if other = key then (other, sum + weight) :: rest
    else if other < key then (other, sum) :: addSorted rest key weight
    else (key, weight) :: (other, sum) :: rest

def ofPairsSorted (pairs : List (Nat × α)) : Tally α :=
  pairs.foldl (fun tally pair => tally.addSorted pair.1 pair.2) []

end Tally

end CommunityDetection
