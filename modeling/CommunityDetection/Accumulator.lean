import CommunityDetection.KeyMap
import CommunityDetection.Tally

/-!
# Accumulators

An accumulator adds up weights by key like a tally, but is cleared and used again for node after node. Its
entries stand in a row, and a map from keys to slots leads to the entry of a key.
-/

namespace CommunityDetection

structure Accumulator (M α : Type) where
  slots : M
  entries : Array (Nat × α)

namespace Accumulator

variable {M α : Type} [Scalar α] (map : KeyMap M Nat)

def new : Accumulator M α := ⟨map.new, #[]⟩

def clear (sums : Accumulator M α) : Accumulator M α := ⟨map.clear sums.slots, #[]⟩

def add (sums : Accumulator M α) (key : Nat) (weight : α) : Accumulator M α :=
  match map.find? sums.slots key with
  | some slot =>
    { sums with entries := sums.entries.modify slot fun entry => (entry.1, entry.2 + weight) }
  | none =>
    { slots := map.insert sums.slots key sums.entries.size
      entries := sums.entries.push (key, weight) }

def get (sums : Accumulator M α) (key : Nat) : α :=
  match map.find? sums.slots key with
  | some slot => (sums.entries[slot]?.map Prod.snd).getD 0
  | none => 0

inductive Action (α : Type) where
  | add (key : Nat) (weight : α)
  | clear

def act (sums : Accumulator M α) : Action α → Accumulator M α
  | .add key weight => sums.add map key weight
  | .clear => sums.clear map

def run (actions : List (Action α)) : Accumulator M α := actions.foldl (act map) (new map)

end Accumulator

end CommunityDetection
