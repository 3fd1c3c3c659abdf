import CommunityDetection.Proofs.Keyed
import CommunityDetection.Tally

/-!
# Weights by key

`weightAt` adds up the weights of one key in a list of weighted keys. In exact arithmetic it is what
a tally of the list holds for the key, and sums over the list are sums over the keys. The keys of a tally
that is kept sorted increase, so a key may be left out before or after tallying (`filter_ofPairsSorted`).
With rounding, the weights of a key are added in the order in which they come (`ofPairs_eq`), and sorting the
entries in the end gives the tally that is kept sorted (`sort_ofPairs`).
-/

namespace CommunityDetection
open Buckets

section Weights

variable {K : Type} [Semiring K]

def weightAt (pairs : List (Nat × K)) (key : Nat) : K :=
  ((pairs.filter fun pair => pair.1 = key).map Prod.snd).sum

@[simp] theorem weightAt_nil (key : Nat) : weightAt ([] : List (Nat × K)) key = 0 := rfl

theorem weightAt_cons (pair : Nat × K) (pairs : List (Nat × K)) (key : Nat) :
    weightAt (pair :: pairs) key = (if pair.1 = key then pair.2 else 0) + weightAt pairs key := by
  by_cases same : pair.1 = key <;> simp [weightAt, same]

theorem weightAt_append (left right : List (Nat × K)) (key : Nat) :
    weightAt (left ++ right) key = weightAt left key + weightAt right key := by
  simp [weightAt]

theorem weightAt_flatMap {ι : Type} (items : List ι) (pairs : ι → List (Nat × K)) (key : Nat) :
    weightAt (items.flatMap pairs) key = (items.map fun item => weightAt (pairs item) key).sum := by
  induction items with
  | nil => rfl
  | cons item items ih => rw [List.flatMap_cons, weightAt_append, ih, List.map_cons, List.sum_cons]

theorem weightAt_of_not_mem {pairs : List (Nat × K)} {key : Nat} (absent : key ∉ pairs.map Prod.fst) :
    weightAt pairs key = 0 := by
  have none : pairs.filter (fun pair => pair.1 = key) = [] := by
    apply List.filter_eq_nil_iff.mpr
    intro pair member same
    exact absent (List.mem_map.mpr ⟨pair, member, by simpa using same⟩)
  rw [weightAt, none, List.map_nil, List.sum_nil]

theorem sum_filter_eq_sum_weightAt {pairs : List (Nat × K)} {n : Nat}
    (bounded : ∀ pair ∈ pairs, pair.1 < n) (p : Nat → Prop) [DecidablePred p] :
    ((pairs.filter fun pair => p pair.1).map Prod.snd).sum =
      ∑ key ∈ (Finset.range n).filter p, weightAt pairs key := by
  induction pairs with
  | nil => simp
  | cons pair pairs ih =>
    have here : pair.1 < n := bounded pair List.mem_cons_self
    simp only [weightAt_cons, Finset.sum_add_distrib, Finset.sum_ite_eq, Finset.mem_filter,
      Finset.mem_range, here, true_and]
    rw [← ih fun other member => bounded other (List.mem_cons_of_mem _ member)]
    by_cases holds : p pair.1 <;> simp [holds]

end Weights

/-- Adds numbers from left to right, the first one taken as it is; zero for none. -/
def Scalar.addUp {α : Type} [Scalar α] : List α → α
  | [] => 0
  | first :: rest => rest.foldl (· + ·) first

namespace Tally

section Keys

variable {α : Type} [Scalar α]

@[simp] theorem get_nil (key : Nat) : get ([] : Tally α) key = 0 := rfl

theorem get_cons (entry : Nat × α) (tally : Tally α) (key : Nat) :
    get (entry :: tally) key = if key = entry.1 then entry.2 else get tally key := by
  obtain ⟨other, weight⟩ := entry
  by_cases same : key = other
  · simp [get, same]
  · simp [get, List.lookup_cons, same, beq_eq_false_iff_ne.mpr same]

theorem mem_keys_add (tally : Tally α) (key other : Nat) (weight : α) :
    other ∈ (tally.add key weight).map Prod.fst ↔ other = key ∨ other ∈ tally.map Prod.fst := by
  induction tally with
  | nil => simp [add]
  | cons entry tally ih =>
    by_cases same : entry.1 = key
    · subst same
      simp [add]
    · simp only [add, same, if_false, List.map_cons, List.mem_cons, ih]
      tauto

theorem nodup_keys_add {tally : Tally α} (nodup : (tally.map Prod.fst).Nodup) (key : Nat) (weight : α) :
    ((tally.add key weight).map Prod.fst).Nodup := by
  induction tally with
  | nil => simp [add]
  | cons entry tally ih =>
    have ⟨fresh, rest⟩ := List.nodup_cons.mp nodup
    by_cases same : entry.1 = key
    · simpa [add, same] using nodup
    · simp only [add, same, if_false, List.map_cons, List.nodup_cons]
      refine ⟨?_, ih rest⟩
      rw [mem_keys_add]
      rintro (equal | member)
      · exact same equal
      · exact fresh member

theorem mem_keys_foldl_add (pairs : List (Nat × α)) (tally : Tally α) (key : Nat) :
    key ∈ (pairs.foldl (fun tally pair => tally.add pair.1 pair.2) tally).map Prod.fst ↔
      key ∈ tally.map Prod.fst ∨ key ∈ pairs.map Prod.fst := by
  induction pairs generalizing tally with
  | nil => simp
  | cons pair pairs ih =>
    rw [List.foldl_cons, ih, mem_keys_add, List.map_cons, List.mem_cons]
    tauto

theorem mem_keys_ofPairs (pairs : List (Nat × α)) (key : Nat) :
    key ∈ (ofPairs pairs).map Prod.fst ↔ key ∈ pairs.map Prod.fst := by
  simp [ofPairs, mem_keys_foldl_add]

theorem nodup_keys_ofPairs (pairs : List (Nat × α)) : ((ofPairs pairs).map Prod.fst).Nodup := by
  suffices all : ∀ tally : Tally α, (tally.map Prod.fst).Nodup →
      ((pairs.foldl (fun tally pair => tally.add pair.1 pair.2) tally).map Prod.fst).Nodup from
    all [] List.nodup_nil
  induction pairs with
  | nil => exact fun _ nodup => nodup
  | cons pair pairs ih => exact fun tally nodup => ih _ (nodup_keys_add nodup pair.1 pair.2)

theorem get_of_mem {tally : Tally α} (nodup : (tally.map Prod.fst).Nodup) {entry : Nat × α}
    (member : entry ∈ tally) : tally.get entry.1 = entry.2 := by
  rw [get, (lookup_eq_some_iff_mem nodup _ _).mpr member, Option.getD_some]

theorem mem_keys_addSorted (tally : Tally α) (key other : Nat) (weight : α) :
    other ∈ (tally.addSorted key weight).map Prod.fst ↔ other = key ∨ other ∈ tally.map Prod.fst := by
  induction tally with
  | nil => simp [addSorted]
  | cons entry tally ih =>
    by_cases same : entry.1 = key
    · subst same
      simp [addSorted]
    · by_cases less : entry.1 < key
      · simp only [addSorted, same, less, if_true, if_false, List.map_cons, List.mem_cons, ih]
        tauto
      · simp [addSorted, same, less]

theorem mem_keys_ofPairsSorted (pairs : List (Nat × α)) (key : Nat) :
    key ∈ (ofPairsSorted pairs).map Prod.fst ↔ key ∈ pairs.map Prod.fst := by
  suffices all : ∀ tally : Tally α,
      key ∈ (pairs.foldl (fun tally pair => tally.addSorted pair.1 pair.2) tally).map Prod.fst ↔
        key ∈ tally.map Prod.fst ∨ key ∈ pairs.map Prod.fst by
    simpa [ofPairsSorted] using all []
  induction pairs with
  | nil => simp
  | cons pair pairs ih =>
    intro tally
    rw [List.foldl_cons, ih, mem_keys_addSorted, List.map_cons, List.mem_cons]
    tauto

end Keys

section Order

variable {α : Type} [Scalar α]

def Sorted (tally : Tally α) : Prop := tally.Pairwise fun first second => first.1 < second.1

omit [Scalar α] in
theorem Sorted.lt_of_lt_head {entry : Nat × α} {tally : Tally α} {key : Nat}
    (sorted : Sorted (entry :: tally)) (less : key < entry.1) : ∀ other ∈ entry :: tally, key < other.1 := by
  intro other member
  rcases List.mem_cons.mp member with rfl | member
  · exact less
  · exact less.trans ((List.pairwise_cons.mp sorted).1 other member)

theorem addSorted_of_lt {tally : Tally α} {key : Nat} (first : ∀ entry ∈ tally, key < entry.1)
    (weight : α) : tally.addSorted key weight = (key, weight) :: tally := by
  cases tally with
  | nil => rfl
  | cons entry tally =>
    have less := first entry List.mem_cons_self
    simp [addSorted, less.ne', less.not_gt]

theorem Sorted.addSorted {tally : Tally α} (sorted : tally.Sorted) (key : Nat) (weight : α) :
    (tally.addSorted key weight).Sorted := by
  induction tally with
  | nil => exact List.pairwise_singleton _ _
  | cons entry tally ih =>
    obtain ⟨first, rest⟩ := List.pairwise_cons.mp sorted
    unfold Tally.addSorted
    split
    · exact List.pairwise_cons.mpr ⟨first, rest⟩
    · split
      · rename_i less
        refine List.pairwise_cons.mpr ⟨fun other member => ?_, ih rest⟩
        rcases (mem_keys_addSorted tally key other.1 weight).mp (List.mem_map_of_mem member) with same | member
        · exact same ▸ less
        · obtain ⟨found, listed, same⟩ := List.mem_map.mp member
          exact same ▸ first found listed
      · rename_i distinct greater
        have less : key < entry.1 := lt_of_le_of_ne (Nat.le_of_not_lt greater) (Ne.symm distinct)
        exact List.pairwise_cons.mpr ⟨sorted.lt_of_lt_head less, sorted⟩

theorem sorted_ofPairsSorted (pairs : List (Nat × α)) : (ofPairsSorted pairs).Sorted := by
  suffices all : ∀ tally : Tally α, tally.Sorted →
      (pairs.foldl (fun (tally : Tally α) (pair : Nat × α) => tally.addSorted pair.1 pair.2) tally).Sorted from
    all [] List.Pairwise.nil
  induction pairs with
  | nil => exact fun _ sorted => sorted
  | cons pair pairs ih => exact fun tally sorted => ih _ (sorted.addSorted pair.1 pair.2)

theorem addSorted_of_gt {tally : Tally α} {key : Nat} (last : ∀ entry ∈ tally, entry.1 < key)
    (weight : α) : tally.addSorted key weight = tally ++ [(key, weight)] := by
  induction tally with
  | nil => rfl
  | cons entry tally ih =>
    have less := last entry List.mem_cons_self
    have rest := ih fun other member => last other (List.mem_cons_of_mem _ member)
    simp [Tally.addSorted, less, less.ne, rest]

/-- A sorted list is its own tally. -/
theorem Sorted.ofPairsSorted_eq {tally : Tally α} (sorted : tally.Sorted) : ofPairsSorted tally = tally := by
  suffices all : ∀ earlier : Tally α, Sorted (earlier ++ tally) →
      tally.foldl (fun (sums : Tally α) (pair : Nat × α) => sums.addSorted pair.1 pair.2) earlier =
        earlier ++ tally from all [] sorted
  clear sorted
  induction tally with
  | nil => exact fun earlier _ => (List.append_nil earlier).symm
  | cons entry tally ih =>
    intro earlier sorted
    have last : ∀ other ∈ earlier, other.1 < entry.1 := by
      intro other member
      exact (List.pairwise_append.mp sorted).2.2 other member entry List.mem_cons_self
    rw [List.foldl_cons, addSorted_of_gt last, ih, List.append_assoc, List.singleton_append]
    rwa [List.append_assoc, List.singleton_append]

theorem Sorted.filter_addSorted {tally : Tally α} (sorted : tally.Sorted) (key : Nat) (weight : α)
    (avoided : Nat) : (tally.addSorted key weight).filter (fun entry => entry.1 != avoided) =
      if key = avoided then tally.filter fun entry => entry.1 != avoided
      else Tally.addSorted (tally.filter fun entry => entry.1 != avoided) key weight := by
  induction tally with
  | nil => by_cases same : key = avoided <;> simp [Tally.addSorted, same]
  | cons entry tally ih =>
    have ih := ih (List.pairwise_cons.mp sorted).2
    simp only [Tally.addSorted]
    split
    · rename_i found
      subst found
      by_cases same : entry.1 = avoided <;> simp [same, Tally.addSorted]
    · rename_i distinct
      split
      · rename_i less
        by_cases same : entry.1 = avoided
        · simp [same, ih]
        · rw [List.filter_cons_of_pos (by simpa using same), ih,
            List.filter_cons_of_pos (by simpa using same)]
          by_cases out : key = avoided <;> simp [out, Tally.addSorted, less, distinct]
      · rename_i greater
        have less : key < entry.1 := lt_of_le_of_ne (Nat.le_of_not_lt greater) (Ne.symm distinct)
        -- The new entry stands before every entry that is kept, whether or not the head is.
        rw [addSorted_of_lt fun other member => sorted.lt_of_lt_head less other (List.mem_filter.mp member).1]
        by_cases out : key = avoided <;> simp [out, List.filter_cons]

theorem filter_ofPairsSorted (pairs : List (Nat × α)) (avoided : Nat) :
    (ofPairsSorted pairs).filter (fun entry => entry.1 != avoided) =
      ofPairsSorted (pairs.filter fun entry => entry.1 != avoided) := by
  suffices all : ∀ tally : Tally α, tally.Sorted →
      (pairs.foldl (fun (tally : Tally α) (pair : Nat × α) => tally.addSorted pair.1 pair.2) tally).filter
          (fun entry => entry.1 != avoided) =
        (pairs.filter fun entry => entry.1 != avoided).foldl
          (fun (tally : Tally α) (pair : Nat × α) => tally.addSorted pair.1 pair.2)
          (tally.filter fun entry => entry.1 != avoided) from
    all [] List.Pairwise.nil
  induction pairs with
  | nil => exact fun _ _ => rfl
  | cons pair pairs ih =>
    intro tally sorted
    rw [List.foldl_cons, ih _ (sorted.addSorted pair.1 pair.2), sorted.filter_addSorted]
    by_cases same : pair.1 = avoided
    · simp [same]
    · simp [same]

end Order

section Entries

variable {α : Type} [Scalar α] {tally other : Tally α} {key : Nat} {weight : α}

theorem add_eq_revise (tally : Tally α) (key : Nat) (weight : α) :
    tally.add key weight = revise (fun sum => sum.elim weight (· + weight)) tally key := by
  induction tally with
  | nil => rfl
  | cons entry tally ih => simp [add, revise, ih]

theorem add_of_notMem (fresh : key ∉ tally.map Prod.fst) : tally.add key weight = tally ++ [(key, weight)] := by
  rw [add_eq_revise, revise_of_notMem _ fresh, Option.elim_none]

theorem add_of_mem (nodup : (tally.map Prod.fst).Nodup) (listed : key ∈ tally.map Prod.fst) :
    tally.add key weight = tally.map fun entry => if entry.1 = key then (key, entry.2 + weight) else entry := by
  rw [add_eq_revise, revise_of_mem _ nodup listed]
  rfl

theorem keys_add_of_mem (nodup : (tally.map Prod.fst).Nodup) (listed : key ∈ tally.map Prod.fst) :
    (tally.add key weight).map Prod.fst = tally.map Prod.fst := by
  rw [add_of_mem nodup listed, List.map_map]
  refine List.map_congr_left fun entry _ => ?_
  by_cases same : entry.1 = key <;> simp [same]

theorem ofPairs_eq (pairs : List (Nat × α)) :
    ofPairs pairs = (pairs.map Prod.fst).eraseDups.map fun key => (key, Scalar.addUp (keyed pairs key)) := by
  unfold ofPairs
  simp only [add_eq_revise]
  apply foldl_revise fun weight sum => sum.elim weight (· + weight)
  · intro weight
    rfl
  · intro weights weight some
    cases weights with
    | nil => exact absurd rfl some
    | cons first rest => simp [Scalar.addUp]

theorem get_of_notMem (absent : key ∉ tally.map Prod.fst) : tally.get key = 0 := by
  have none : tally.lookup key = none := by
    rw [List.lookup_eq_none_iff]
    intro entry member
    have other : key ≠ entry.1 := by
      rintro rfl
      exact absent (List.mem_map_of_mem member)
    simpa using other
  rw [get, none, Option.getD_none]

theorem get_ofPairs_eq_addUp (pairs : List (Nat × α)) (key : Nat) :
    (ofPairs pairs).get key = Scalar.addUp (keyed pairs key) := by
  by_cases listed : key ∈ pairs.map Prod.fst
  · have member : (key, Scalar.addUp (keyed pairs key)) ∈ ofPairs pairs := by
      rw [ofPairs_eq]
      exact List.mem_map_of_mem (List.mem_eraseDups.mpr listed)
    exact get_of_mem (nodup_keys_ofPairs pairs) member
  · rw [get_of_notMem (mt (mem_keys_ofPairs pairs key).mp listed), keyed_eq_nil_iff.mpr listed]
    rfl

theorem add_perm (nodup : (tally.map Prod.fst).Nodup) (perm : tally.Perm other) (key : Nat) (weight : α) :
    (tally.add key weight).Perm (other.add key weight) := by
  have keys := perm.map Prod.fst
  by_cases listed : key ∈ tally.map Prod.fst
  · rw [add_of_mem nodup listed, add_of_mem (keys.nodup_iff.mp nodup) (keys.mem_iff.mp listed)]
    exact perm.map _
  · rw [add_of_notMem listed, add_of_notMem (mt keys.mem_iff.mpr listed)]
    exact perm.append_right _

theorem Sorted.addSorted_perm (sorted : tally.Sorted) (key : Nat) (weight : α) :
    (tally.addSorted key weight).Perm (tally.add key weight) := by
  induction tally with
  | nil => exact .refl _
  | cons entry tally ih =>
    unfold Tally.addSorted
    split
    · rename_i same
      rw [add, if_pos same]
    · rename_i distinct
      split
      · rw [add, if_neg distinct]
        exact (ih (List.pairwise_cons.mp sorted).2).cons entry
      · rename_i greater
        have less : key < entry.1 := lt_of_le_of_ne (Nat.le_of_not_lt greater) (Ne.symm distinct)
        have fresh : key ∉ (entry :: tally).map Prod.fst := by
          intro listed
          obtain ⟨found, member, same⟩ := List.mem_map.mp listed
          exact (sorted.lt_of_lt_head less found member).ne same.symm
        rw [add_of_notMem fresh]
        exact (List.perm_append_singleton _ _).symm

theorem ofPairsSorted_perm (pairs : List (Nat × α)) : (ofPairsSorted pairs).Perm (ofPairs pairs) := by
  induction pairs using List.reverseRecOn with
  | nil => exact .refl _
  | append_singleton pairs pair ih =>
    have nodup : ((ofPairsSorted pairs).map Prod.fst).Nodup :=
      (ih.map Prod.fst).nodup_iff.mpr (nodup_keys_ofPairs pairs)
    have last : ofPairsSorted (pairs ++ [pair]) = (ofPairsSorted pairs).addSorted pair.1 pair.2 := by
      simp [ofPairsSorted]
    have unsorted : ofPairs (pairs ++ [pair]) = (ofPairs pairs).add pair.1 pair.2 := by
      simp [ofPairs]
    rw [last, unsorted]
    exact ((sorted_ofPairsSorted pairs).addSorted_perm _ _).trans (add_perm nodup ih _ _)

theorem sort_ofPairs (pairs : List (Nat × α)) :
    ((ofPairs pairs).mergeSort fun left right => left.1 ≤ right.1) = ofPairsSorted pairs :=
  mergeSort_of_perm Prod.fst (ofPairsSorted_perm pairs).symm (sorted_ofPairsSorted pairs)

end Entries

section Sums

variable {K : Type} [Field K] [LinearOrder K]

theorem get_add (tally : Tally K) (key other : Nat) (weight : K) :
    (tally.add key weight).get other = tally.get other + if key = other then weight else 0 := by
  induction tally with
  | nil => simp [add, get_cons, eq_comm]
  | cons entry tally ih =>
    by_cases found : entry.1 = key
    · subst found
      by_cases same : other = entry.1
      · simp [add, get_cons, same]
      · simp [add, get_cons, same, Ne.symm same]
    · by_cases same : other = entry.1
      · simp [add, get_cons, found, same, Ne.symm found]
      · simp [add, get_cons, found, same, ih]

theorem get_ofPairs (pairs : List (Nat × K)) (key : Nat) :
    (ofPairs pairs).get key = weightAt pairs key := by
  suffices all : ∀ tally : Tally K,
      (pairs.foldl (fun tally pair => tally.add pair.1 pair.2) tally).get key =
        tally.get key + weightAt pairs key by
    simpa [ofPairs] using all []
  induction pairs with
  | nil => simp
  | cons pair pairs ih =>
    intro tally
    rw [List.foldl_cons, ih, get_add, weightAt_cons, add_assoc]

theorem snd_of_mem_ofPairs {pairs : List (Nat × K)} {entry : Nat × K} (member : entry ∈ ofPairs pairs) :
    entry.2 = weightAt pairs entry.1 := by
  rw [← get_ofPairs, get_of_mem (nodup_keys_ofPairs pairs) member]

omit [LinearOrder K] in
theorem Sorted.weightAt_of_mem {tally : Tally K} (sorted : tally.Sorted) {entry : Nat × K}
    (member : entry ∈ tally) : weightAt tally entry.1 = entry.2 := by
  induction tally with
  | nil => cases member
  | cons first tally ih =>
    obtain ⟨before, rest⟩ := List.pairwise_cons.mp sorted
    rw [weightAt_cons]
    rcases List.mem_cons.mp member with rfl | later
    · have absent : entry.1 ∉ tally.map Prod.fst := by
        intro listed
        obtain ⟨other, inTally, same⟩ := List.mem_map.mp listed
        exact (before other inTally).ne same.symm
      rw [if_pos rfl, weightAt_of_not_mem absent, add_zero]
    · rw [if_neg (before entry later).ne, zero_add, ih rest later]

theorem weightAt_addSorted (tally : Tally K) (key other : Nat) (weight : K) :
    weightAt (addSorted tally key weight) other =
      weightAt tally other + if key = other then weight else 0 := by
  induction tally with
  | nil => simp [addSorted, weightAt_cons]
  | cons entry tally ih =>
    by_cases found : entry.1 = key
    · by_cases same : entry.1 = other
      · simp [addSorted, weightAt_cons, ← found, same]
        ring
      · simp [addSorted, weightAt_cons, ← found, same]
    · by_cases less : entry.1 < key
      · simp only [addSorted, found, less, if_true, if_false, weightAt_cons, ih, add_assoc]
      · simp only [addSorted, found, less, if_false, weightAt_cons]
        ring

theorem weightAt_ofPairsSorted (pairs : List (Nat × K)) (key : Nat) :
    weightAt (ofPairsSorted pairs) key = weightAt pairs key := by
  suffices all : ∀ tally : Tally K,
      weightAt (pairs.foldl (fun tally pair => addSorted tally pair.1 pair.2) tally) key =
        weightAt tally key + weightAt pairs key by
    simpa [ofPairsSorted] using all []
  induction pairs with
  | nil => simp
  | cons pair pairs ih =>
    intro tally
    rw [List.foldl_cons, ih, weightAt_addSorted, weightAt_cons, add_assoc]

end Sums

end Tally

end CommunityDetection
