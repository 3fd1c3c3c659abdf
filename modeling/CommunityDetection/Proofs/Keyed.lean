import CommunityDetection.KeyMap
import CommunityDetection.Proofs.Buckets

/-!
# Entries by key

Entries change by key while items come in: `revise` puts what becomes of the value of a key into its entry,
and a new key opens the last entry. In the end each key is listed once, in the order of the first items,
with what its own items come to (`foldl_revise`). A map that revises its values by key finds the same, but
may list its entries in another order (`KeyMap.find?_foldl`).
-/

namespace CommunityDetection
open Buckets

/-! ## First occurrences -/

theorem eraseDups_concat_of_mem {ids : List Nat} {id : Nat} (member : id ∈ ids) :
    (ids ++ [id]).eraseDups = ids.eraseDups := by
  simp [List.eraseDups_append, List.removeAll, member]

theorem eraseDups_concat_of_notMem {ids : List Nat} {id : Nat} (fresh : id ∉ ids) :
    (ids ++ [id]).eraseDups = ids.eraseDups ++ [id] := by
  simp [List.eraseDups_append, List.removeAll, fresh, List.eraseDups_cons]

theorem pairwise_eraseDups (ids : List Nat) :
    ids.eraseDups.Pairwise fun first second => ids.idxOf first < ids.idxOf second := by
  induction ids using List.reverseRecOn with
  | nil => exact .nil
  | append_singleton ids id ih =>
    have before : ids.eraseDups.Pairwise fun first second =>
        (ids ++ [id]).idxOf first < (ids ++ [id]).idxOf second := by
      refine ih.imp_of_mem fun first second less => ?_
      rwa [List.idxOf_append_of_mem (List.mem_eraseDups.mp first),
        List.idxOf_append_of_mem (List.mem_eraseDups.mp second)]
    by_cases member : id ∈ ids
    · rwa [eraseDups_concat_of_mem member]
    · rw [eraseDups_concat_of_notMem member]
      refine List.pairwise_append.mpr ⟨before, List.pairwise_singleton _ _, ?_⟩
      intro first listed second last
      rw [List.mem_singleton.mp last, List.idxOf_append_of_mem (List.mem_eraseDups.mp listed),
        List.idxOf_append_of_notMem member]
      have := List.idxOf_lt_length_iff.mpr (List.mem_eraseDups.mp listed)
      omega

theorem nodup_eraseDups (ids : List Nat) : ids.eraseDups.Nodup :=
  (pairwise_eraseDups ids).imp fun {_ _} less same => less.ne (congrArg ids.idxOf same)

/-! ## Sorting by key -/

variable {β γ : Type}

theorem mergeSort_of_perm (key : β → Nat) {items sorted : List β} (perm : items.Perm sorted)
    (increasing : sorted.Pairwise fun left right => key left < key right) :
    (items.mergeSort fun left right => key left ≤ key right) = sorted := by
  have ordered : (items.mergeSort fun left right => key left ≤ key right).Pairwise
      fun left right => key left ≤ key right :=
    (List.pairwise_mergeSort (by simpa using fun _ _ _ => Nat.le_trans)
      (by simpa using fun _ _ => Nat.le_total _ _) items).imp of_decide_eq_true
  have same := (List.mergeSort_perm items fun left right => key left ≤ key right).trans perm
  have distinct : (sorted.map key).Nodup :=
    (List.pairwise_map.mpr increasing).imp fun {_ _} less => less.ne
  refine List.Perm.eq_of_pairwise ?_ ordered (increasing.imp le_of_lt) same
  intro left right listed other le ge
  exact List.inj_on_of_nodup_map distinct (same.mem_iff.mp listed) other (le_antisymm le ge)

/-! ## Revising entries -/

variable {entries : List (Nat × β)} {key : Nat}

/-- Changes the value of a key, or opens the last entry with what a new key starts with. -/
def revise (change : Option β → β) : List (Nat × β) → Nat → List (Nat × β)
  | [], key => [(key, change none)]
  | entry :: entries, key =>
    if entry.1 = key then (entry.1, change (some entry.2)) :: entries
    else entry :: revise change entries key

theorem revise_of_notMem (change : Option β → β) (fresh : key ∉ entries.map Prod.fst) :
    revise change entries key = entries ++ [(key, change none)] := by
  induction entries with
  | nil => rfl
  | cons entry entries ih =>
    rw [List.map_cons, List.mem_cons, not_or] at fresh
    rw [revise, if_neg (Ne.symm fresh.1), ih fresh.2, List.cons_append]

theorem revise_of_mem (change : Option β → β) (nodup : (entries.map Prod.fst).Nodup)
    (listed : key ∈ entries.map Prod.fst) :
    revise change entries key =
      entries.map fun entry => if entry.1 = key then (key, change (some entry.2)) else entry := by
  induction entries with
  | nil => cases listed
  | cons entry entries ih =>
    obtain ⟨fresh, rest⟩ := List.nodup_cons.mp nodup
    by_cases same : entry.1 = key
    · subst same
      have others : (entries.map fun other =>
          if other.1 = entry.1 then (entry.1, change (some other.2)) else other) = entries := by
        refine (List.map_congr_left fun other member => if_neg fun same => fresh ?_).trans (List.map_id _)
        exact same ▸ List.mem_map_of_mem member
      rw [revise, if_pos rfl, List.map_cons, if_pos rfl, others]
    · have later : key ∈ entries.map Prod.fst := by
        simpa [Ne.symm same] using listed
      rw [revise, if_neg same, ih rest later, List.map_cons, if_neg same]

theorem keyed_eq_nil_iff {items : List (Nat × γ)} : keyed items key = [] ↔ key ∉ items.map Prod.fst := by
  rw [keyed, List.map_eq_nil_iff, List.filter_eq_nil_iff]
  constructor
  · intro none listed
    obtain ⟨item, member, same⟩ := List.mem_map.mp listed
    simpa [same] using none item member
  · intro fresh item member
    simp only [decide_eq_true_eq]
    rintro rfl
    exact fresh (List.mem_map_of_mem member)

theorem foldl_revise (change : γ → Option β → β) (value : List γ → β)
    (first : ∀ item, value [item] = change item none)
    (later : ∀ items item, items ≠ [] → value (items ++ [item]) = change item (some (value items)))
    (items : List (Nat × γ)) :
    items.foldl (fun entries item => revise (change item.2) entries item.1) [] =
      (items.map Prod.fst).eraseDups.map fun key => (key, value (keyed items key)) := by
  induction items using List.reverseRecOn with
  | nil => rfl
  | append_singleton items item ih =>
    have keys : ((items.map Prod.fst).eraseDups.map fun key => (key, value (keyed items key))).map Prod.fst =
        (items.map Prod.fst).eraseDups := by
      rw [List.map_map]
      exact List.map_id _
    rw [List.foldl_append, ih, List.foldl_cons, List.foldl_nil, List.map_append, List.map_singleton]
    by_cases member : item.1 ∈ items.map Prod.fst
    · rw [eraseDups_concat_of_mem member,
        revise_of_mem _ (by rw [keys]; exact nodup_eraseDups _) (by rwa [keys, List.mem_eraseDups]),
        List.map_map]
      refine List.map_congr_left fun key _ => ?_
      by_cases same : key = item.1
      · subst same
        have some : keyed items item.1 ≠ [] := fun none => keyed_eq_nil_iff.mp none member
        simp [keyed_append, keyed_singleton, later _ _ some]
      · simp [keyed_append, keyed_singleton, same, Ne.symm same]
    · rw [eraseDups_concat_of_notMem member,
        revise_of_notMem _ (by rwa [keys, List.mem_eraseDups]), List.map_append, List.map_singleton]
      have new : keyed (items ++ [item]) item.1 = [item.2] := by
        rw [keyed_append, keyed_eq_nil_iff.mpr member, keyed_singleton, if_pos rfl, List.nil_append]
      rw [new, first]
      refine congrArg (· ++ _) (List.map_congr_left fun key listed => ?_)
      have other : item.1 ≠ key := fun same => member (same ▸ List.mem_eraseDups.mp listed)
      rw [keyed_append, keyed_singleton, if_neg other, List.append_nil]

/-! ## Maps -/

theorem lookup_eq_some_iff_mem (nodup : (entries.map Prod.fst).Nodup) (key : Nat) (value : β) :
    entries.lookup key = some value ↔ (key, value) ∈ entries := by
  induction entries with
  | nil => simp
  | cons entry entries ih =>
    obtain ⟨fresh, rest⟩ := List.nodup_cons.mp nodup
    rw [lookup_cons_eq_ite, List.mem_cons, ← ih rest]
    split
    · rename_i same
      subst same
      have absent : entries.lookup entry.1 ≠ some value := by
        intro found
        exact fresh (List.mem_map.mpr ⟨_, (ih rest).mp found, rfl⟩)
      simp [absent, Prod.ext_iff, eq_comm]
    · rename_i other
      simp [other, Prod.ext_iff]

theorem lookup_filter_ne {other : Nat} (distinct : other ≠ key) (entries : List (Nat × β)) :
    (entries.filter (·.1 != key)).lookup other = entries.lookup other := by
  induction entries with
  | nil => rfl
  | cons entry entries ih =>
    rw [List.filter_cons]
    split
    · rw [lookup_cons_eq_ite, lookup_cons_eq_ite, ih]
    · rename_i same
      have here : entry.1 = key := by simpa using same
      rw [lookup_cons_eq_ite, here, if_neg distinct, ih]

namespace KeyMap

theorem lawful_listed (β : Type) : (listed β).Lawful where
  find?_new _ := rfl
  find?_clear _ _ := rfl
  find?_insert listing key value other := by
    simp only [listed, Listing.put, lookup_cons_eq_ite]
    split
    · rfl
    · rename_i distinct
      exact lookup_filter_ne distinct _
  nodup_entries listing := listing.nodup
  mem_entries listing key value := (lookup_eq_some_iff_mem listing.nodup key value).symm

variable {M : Type} {map : KeyMap M β}

theorem find?_foldl (lawful : map.Lawful) (change : γ → Option β → β) (value : List γ → β)
    (first : ∀ item, value [item] = change item none)
    (later : ∀ items item, items ≠ [] → value (items ++ [item]) = change item (some (value items)))
    (items : List (Nat × γ)) (key : Nat) :
    map.find? (items.foldl (fun state item => map.insert state item.1 (change item.2 (map.find? state item.1)))
        map.new) key =
      if key ∈ items.map Prod.fst then some (value (keyed items key)) else none := by
  induction items using List.reverseRecOn generalizing key with
  | nil => exact lawful.find?_new key
  | append_singleton items item ih =>
    rw [List.foldl_append, List.foldl_cons, List.foldl_nil, lawful.find?_insert, ih, ih, keyed_append,
      keyed_singleton, List.map_append, List.map_singleton]
    simp only [List.mem_append, List.mem_singleton]
    by_cases same : key = item.1
    · subst same
      by_cases member : item.1 ∈ items.map Prod.fst
      · have some : keyed items item.1 ≠ [] := fun none => keyed_eq_nil_iff.mp none member
        simp [member, later _ _ some]
      · simp [member, keyed_eq_nil_iff.mpr member, first]
    · rw [if_neg same, if_neg (Ne.symm same), List.append_nil]
      simp only [or_iff_left same]

end KeyMap

end CommunityDetection
