import CommunityDetection.Accumulator
import CommunityDetection.Proofs.Tally

/-!
# What accumulators hold

An accumulator holds the tally of the weights added since it was cleared last, whatever it was used for
before and whatever map keeps the slots (`sums_since_clear`). The slots stay those of the entries
(`Indexed`), so each addition does to the entries what it does to a tally (`Indexed.entries_add`).
-/

namespace CommunityDetection
open Buckets

namespace Accumulator

variable {M α : Type} [Scalar α] {map : KeyMap M Nat} {sums : Accumulator M α}

def keys (sums : Accumulator M α) : List Nat := sums.entries.toList.map Prod.fst

def Indexed (map : KeyMap M Nat) (sums : Accumulator M α) : Prop :=
  ∀ key slot, map.find? sums.slots key = some slot ↔ sums.keys[slot]? = some key

omit [Scalar α] in
theorem indexed_new (lawful : map.Lawful) : Indexed map (new map : Accumulator M α) := by
  intro key slot
  simp [new, keys, lawful.find?_new]

omit [Scalar α] in
theorem indexed_clear (lawful : map.Lawful) (sums : Accumulator M α) : Indexed map (sums.clear map) := by
  intro key slot
  simp [clear, keys, lawful.find?_clear]

omit [Scalar α] in
theorem Indexed.nodup (indexed : Indexed map sums) : sums.keys.Nodup := by
  rw [List.nodup_iff_getElem?_ne_getElem?]
  intro i j before inside same
  have second := List.getElem?_eq_getElem inside
  have first := (indexed _ i).mpr (same.trans second)
  cases first.symm.trans ((indexed _ j).mpr second)
  exact lt_irrefl i before

omit [Scalar α] in
theorem Indexed.find?_eq_none_iff (indexed : Indexed map sums) (key : Nat) :
    map.find? sums.slots key = none ↔ key ∉ sums.keys := by
  rw [Option.eq_none_iff_forall_ne_some, List.mem_iff_getElem?]
  simp [indexed key]

theorem Indexed.entries_add (indexed : Indexed map sums) (key : Nat) (weight : α) :
    (sums.add map key weight).entries.toList = Tally.add sums.entries.toList key weight := by
  cases found : map.find? sums.slots key with
  | some slot =>
    have placed := (indexed key slot).mp found
    rw [Tally.add_of_mem indexed.nodup (List.mem_of_getElem? placed)]
    simp only [add, found, Array.toList_modify]
    apply List.ext_getElem?
    intro i
    rw [List.getElem?_modify, List.getElem?_map]
    cases listed : sums.entries.toList[i]? with
    | none => simp
    | some entry =>
      have named : sums.keys[i]? = some entry.1 := by simp [keys, listed]
      by_cases here : slot = i
      · subst here
        cases placed.symm.trans named
        simp
      · have other : entry.1 ≠ key := by
          rintro rfl
          cases found.symm.trans ((indexed entry.1 i).mpr named)
          exact here rfl
        simp [here, other]
  | none =>
    rw [Tally.add_of_notMem ((indexed.find?_eq_none_iff key).mp found)]
    simp [add, found]

theorem Indexed.add (lawful : map.Lawful) (indexed : Indexed map sums) (key : Nat) (weight : α) :
    Indexed map (sums.add map key weight) := by
  have entries := indexed.entries_add key weight
  cases found : map.find? sums.slots key with
  | some slot =>
    have listed := List.mem_of_getElem? ((indexed key slot).mp found)
    have same : (sums.add map key weight).keys = sums.keys := by
      rw [keys, entries, Tally.keys_add_of_mem indexed.nodup listed, keys]
    have slots : (sums.add map key weight).slots = sums.slots := by simp [Accumulator.add, found]
    intro other i
    rw [same, slots]
    exact indexed other i
  | none =>
    have fresh := (indexed.find?_eq_none_iff key).mp found
    have last : (sums.add map key weight).keys = sums.keys ++ [key] := by
      rw [keys, entries, Tally.add_of_notMem fresh, List.map_append, keys, List.map_singleton]
    have slots : (sums.add map key weight).slots = map.insert sums.slots key sums.keys.length := by
      simp [Accumulator.add, found, keys]
    intro other i
    have placed : (sums.keys ++ [key])[i]? = some other ↔
        sums.keys[i]? = some other ∨ i = sums.keys.length ∧ other = key := by
      rw [List.getElem?_append]
      split
      · rename_i inside
        simp [inside.ne]
      · rename_i beyond
        have outside : sums.keys[i]? = none := List.getElem?_eq_none (Nat.le_of_not_lt beyond)
        have start : i - sums.keys.length = 0 ↔ i = sums.keys.length := by omega
        simp [List.getElem?_singleton, outside, start, eq_comm]
    rw [last, slots, lawful.find?_insert, placed, ← indexed other i]
    by_cases same : other = key
    · subst same
      simp [found, eq_comm]
    · simp [same]

/-! ## Actions -/

/-- The weights added since the last clearing, with their keys. -/
def recent (actions : List (Action α)) : List (Nat × α) :=
  actions.foldl
    (fun pairs action =>
      match action with
      | .add key weight => pairs ++ [(key, weight)]
      | .clear => [])
    []

theorem run_tallies (lawful : map.Lawful) (actions : List (Action α)) :
    Indexed map (run map actions) ∧ (run map actions).entries.toList = Tally.ofPairs (recent actions) := by
  induction actions using List.reverseRecOn with
  | nil => exact ⟨indexed_new lawful, rfl⟩
  | append_singleton actions action ih =>
    obtain ⟨indexed, entries⟩ := ih
    have last : run map (actions ++ [action]) = (run map actions).act map action := by simp [run]
    rw [last]
    cases action with
    | clear =>
      have none : recent (actions ++ [.clear]) = [] := by simp [recent]
      exact ⟨indexed_clear lawful _, by rw [none]; rfl⟩
    | add key weight =>
      have more : recent (actions ++ [.add key weight]) = recent actions ++ [(key, weight)] := by simp [recent]
      refine ⟨indexed.add lawful key weight, ?_⟩
      rw [more, act, indexed.entries_add, entries]
      simp [Tally.ofPairs]

theorem Indexed.get_eq (indexed : Indexed map sums) (key : Nat) :
    sums.get map key = Tally.get sums.entries.toList key := by
  cases found : map.find? sums.slots key with
  | some slot =>
    have placed := (indexed key slot).mp found
    rw [keys, List.getElem?_map, Option.map_eq_some_iff] at placed
    obtain ⟨entry, listed, rfl⟩ := placed
    rw [Tally.get_of_mem indexed.nodup (List.mem_of_getElem? listed)]
    rw [Array.getElem?_toList] at listed
    simp [get, found, listed]
  | none =>
    rw [Tally.get_of_notMem ((indexed.find?_eq_none_iff key).mp found)]
    simp [get, found]

/-- An accumulator that was used in any way, with any map for its slots, lists the keys to which a weight was
added since it was cleared last, each once and in the order of first additions, with the weights added from left
to right, and gives the same sums when asked for a key. Each slot is that of the entry of its key. So the entries
are those of the tally from which gains are read, and sorted by key they are those of the tally from which
the weights of a coarse graph are read, and they depend neither on the map nor on what was added before. -/
theorem sums_since_clear (lawful : map.Lawful) (actions : List (Action α)) :
    let pairs := recent actions
    let sums := run map actions
    sums.entries.toList =
      (pairs.map Prod.fst).eraseDups.map (fun key => (key, Scalar.addUp (keyed pairs key))) ∧
    (∀ key, sums.get map key = if key ∈ pairs.map Prod.fst then Scalar.addUp (keyed pairs key) else 0) ∧
    (∀ key slot, map.find? sums.slots key = some slot ↔ ∃ sum, sums.entries[slot]? = some (key, sum)) ∧
    sums.entries.toList = Tally.ofPairs pairs ∧
    (sums.entries.toList.mergeSort fun left right => left.1 ≤ right.1) = Tally.ofPairsSorted pairs ∧
    ∀ {N : Type} {other : KeyMap N Nat}, other.Lawful → ∀ others : List (Action α), recent others = pairs →
      (run other others).entries = sums.entries ∧
        ∀ key, (run other others).get other key = sums.get map key := by
  intro pairs sums
  obtain ⟨indexed, entries⟩ := run_tallies lawful actions
  refine ⟨entries.trans (Tally.ofPairs_eq pairs), fun key => ?_, fun key slot => ?_, entries, ?_, ?_⟩
  · rw [indexed.get_eq, entries, Tally.get_ofPairs_eq_addUp]
    split
    · rfl
    · rename_i absent
      rw [keyed_eq_nil_iff.mpr absent]
      rfl
  · rw [indexed key slot, keys, List.getElem?_map, Option.map_eq_some_iff, Array.getElem?_toList]
    constructor
    · rintro ⟨entry, listed, rfl⟩
      exact ⟨entry.2, listed⟩
    · rintro ⟨sum, listed⟩
      exact ⟨(key, sum), listed, rfl⟩
  · rw [entries]
    exact Tally.sort_ofPairs pairs
  · intro N other otherLawful others same
    obtain ⟨otherIndexed, otherEntries⟩ := run_tallies otherLawful others
    have equal : (run other others).entries.toList = sums.entries.toList := by
      rw [otherEntries, same, entries]
    exact ⟨Array.toList_inj.mp equal, fun key => by rw [otherIndexed.get_eq, equal, indexed.get_eq]⟩

theorem sums_since_clear_reused :
    let actions : List (Action ℚ) := [.add 3 5, .clear, .add 9 1, .add 3 2, .add 9 (1 / 2)]
    let sums := run (.listed _) actions
    sums.entries.toList = [(9, 3 / 2), (3, 2)] ∧ sums.get (.listed _) 3 = 2 ∧ sums.get (.listed _) 4 = 0 := by
  intro actions sums
  obtain ⟨entries, gets, -⟩ := sums_since_clear (KeyMap.lawful_listed _) actions
  exact ⟨entries.trans (by decide +kernel), (gets 3).trans (by decide +kernel), (gets 4).trans (by decide +kernel)⟩

end Accumulator

end CommunityDetection
