/-!
# Maps by key

What accumulators and groups need of a map from keys to values. How it keeps its state and in which order it
lists its entries is left open: what is built on it is shown for every map with the laws `KeyMap.Lawful`.
-/

namespace CommunityDetection

structure KeyMap (M β : Type) where
  new : M
  clear : M → M
  find? : M → (key : Nat) → Option β
  insert : M → (key : Nat) → (value : β) → M
  entries : M → List (Nat × β)

namespace KeyMap

/-- Under a key the value is found that was put there last, and nothing at first and after clearing. Each
key with a value is listed once, with this value. -/
structure Lawful {M β : Type} (map : KeyMap M β) : Prop where
  find?_new (key : Nat) : map.find? map.new key = none
  find?_clear (state : M) (key : Nat) : map.find? (map.clear state) key = none
  find?_insert (state : M) (key : Nat) (value : β) (other : Nat) :
    map.find? (map.insert state key value) other = if other = key then some value else map.find? state other
  nodup_entries (state : M) : ((map.entries state).map Prod.fst).Nodup
  mem_entries (state : M) (key : Nat) (value : β) :
    (key, value) ∈ map.entries state ↔ map.find? state key = some value

variable {β : Type}

structure Listing (β : Type) where
  entries : List (Nat × β)
  nodup : (entries.map Prod.fst).Nodup

namespace Listing

def put (listing : Listing β) (key : Nat) (value : β) : Listing β where
  entries := (key, value) :: listing.entries.filter (·.1 != key)
  nodup := by
    rw [List.map_cons, List.nodup_cons]
    constructor
    · intro listed
      obtain ⟨entry, member, same⟩ := List.mem_map.mp listed
      simpa [same] using (List.mem_filter.mp member).2
    · exact listing.nodup.sublist (List.filter_sublist.map Prod.fst)

end Listing

def listed (β : Type) : KeyMap (Listing β) β where
  new := ⟨[], .nil⟩
  clear _ := ⟨[], .nil⟩
  find? listing key := listing.entries.lookup key
  insert := Listing.put
  entries := Listing.entries

end KeyMap

end CommunityDetection
