/-!
# Buckets

Items with keys are listed key by key, those of one key in the order given. All items are stored in one
array, where those of one key are next to each other: a first pass counts the items of each key, which tells
where they begin, and a second pass puts each item into the next slot of its key.
-/

namespace CommunityDetection.Buckets

variable {β : Type}

def counts (n : Nat) (items : List (Nat × β)) : Array Nat :=
  items.foldl
    (fun counts item => counts.setIfInBounds item.1 (counts.getD item.1 0 + 1))
    (Array.replicate n 0)

def offsets (counts : List Nat) : Array Nat :=
  counts.foldl
    (fun offsets count => offsets.push (offsets.getD (offsets.size - 1) 0 + count))
    #[0]

structure Filling (β : Type) where
  slots : Array β
  cursors : Array Nat

def Filling.put (filling : Filling β) (item : Nat × β) : Filling β :=
  match filling.cursors[item.1]? with
  | none => filling
  | some slot =>
    { slots := filling.slots.setIfInBounds slot item.2
      cursors := filling.cursors.setIfInBounds item.1 (slot + 1) }

/-- The items with each of the keys below `n`, in the order given. Slots are `blank` at first. -/
@[irreducible] def arrange (n : Nat) (blank : β) (items : List (Nat × β)) : Array (List β) :=
  let offsets := offsets (counts n items).toList
  let filled := items.foldl Filling.put
    { slots := Array.replicate (offsets.getD n 0) blank, cursors := offsets.pop }
  let slotsOf (key : Nat) : List Nat :=
    List.range' (offsets.getD key 0) (offsets.getD (key + 1) 0 - offsets.getD key 0)
  ((List.range n).map fun key => (slotsOf key).map fun slot => filled.slots.getD slot blank).toArray

end CommunityDetection.Buckets
