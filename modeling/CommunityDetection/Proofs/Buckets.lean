import CommunityDetection.Buckets
import CommunityDetection.Proofs.Cells

/-!
# What buckets list

`Buckets.arrange` lists for each key the items that have it, in the order given (`getD_arrange`). The slots
of different keys lie apart (`Layout`), so while the slots are filled no item is put where another one is
(`Filling.Holds`).
-/

namespace CommunityDetection.Buckets

variable {β : Type} {n key : Nat} {items done rest : List (Nat × β)}

def keyed (items : List (Nat × β)) (key : Nat) : List β :=
  (items.filter fun item => item.1 = key).map Prod.snd

theorem keyed_append (done rest : List (Nat × β)) (key : Nat) :
    keyed (done ++ rest) key = keyed done key ++ keyed rest key := by simp [keyed]

theorem keyed_singleton (item : Nat × β) (key : Nat) :
    keyed [item] key = if item.1 = key then [item.2] else [] := by
  by_cases same : item.1 = key <;> simp [keyed, same]

theorem sum_length_keyed (inside : ∀ item ∈ items, item.1 < n) :
    ∑ key ∈ Finset.range n, (keyed items key).length = items.length := by
  induction items with
  | nil => simp [keyed]
  | cons item items ih =>
    have each (key : Nat) : (keyed (item :: items) key).length =
        (if item.1 = key then 1 else 0) + (keyed items key).length := by
      rw [← List.singleton_append, keyed_append, List.length_append, keyed_singleton]
      split <;> rfl
    have here := Finset.mem_range.mpr (inside item List.mem_cons_self)
    rw [Finset.sum_congr rfl fun key _ => each key, Finset.sum_add_distrib, Finset.sum_ite_eq, if_pos here,
      ih fun other member => inside other (List.mem_cons_of_mem item member), List.length_cons, Nat.add_comm]

/-! ## Counting -/

theorem counts_append (n : Nat) (items : List (Nat × β)) (item : Nat × β) :
    counts n (items ++ [item]) =
      (counts n items).setIfInBounds item.1 ((counts n items).getD item.1 0 + 1) := by
  simp [counts]

@[simp] theorem size_counts (n : Nat) (items : List (Nat × β)) : (counts n items).size = n := by
  induction items using List.reverseRecOn with
  | nil => simp [counts]
  | append_singleton items item ih => rw [counts_append, Array.size_setIfInBounds, ih]

theorem getD_counts (items : List (Nat × β)) (bound : key < n) :
    (counts n items).getD key 0 = (keyed items key).length := by
  induction items using List.reverseRecOn with
  | nil => exact getD_replicate n key 0
  | append_singleton items item ih =>
    rw [counts_append, getD_setIfInBounds, size_counts, keyed_append, List.length_append,
      keyed_singleton]
    by_cases same : item.1 = key
    · rw [if_pos ⟨same, same ▸ bound⟩, if_pos same, same, ih, List.length_singleton]
    · rw [if_neg fun both => same both.1, if_neg same, ih]
      rfl

theorem offsets_append (counts : List Nat) (count : Nat) :
    offsets (counts ++ [count]) =
      (offsets counts).push ((offsets counts).getD ((offsets counts).size - 1) 0 + count) := by
  simp [offsets]

@[simp] theorem size_offsets (counts : List Nat) : (offsets counts).size = counts.length + 1 := by
  induction counts using List.reverseRecOn with
  | nil => rfl
  | append_singleton counts count ih => rw [offsets_append, Array.size_push, ih, List.length_append,
      List.length_singleton]

theorem getD_offsets_succ (counts : List Nat) (bound : key < counts.length) :
    (offsets counts).getD (key + 1) 0 = (offsets counts).getD key 0 + counts.getD key 0 := by
  induction counts using List.reverseRecOn with
  | nil => exact absurd bound (Nat.not_lt_zero key)
  | append_singleton counts count ih =>
    have size := size_offsets counts
    rw [List.length_append, List.length_singleton] at bound
    rw [offsets_append, size, Nat.add_sub_cancel]
    simp only [Array.getD_eq_getD_getElem?, Array.getElem?_push, List.getD_eq_getElem?_getD] at ih ⊢
    rw [size]
    by_cases last : key = counts.length
    · simp [last]
    · have before : key < counts.length := by omega
      rw [if_neg (by omega), if_neg (by omega), List.getElem?_append_left before]
      exact ih before

theorem offsets_mono (counts : List Nat) {low high : Nat} (ordered : low ≤ high)
    (bound : high ≤ counts.length) :
    (offsets counts).getD low 0 ≤ (offsets counts).getD high 0 := by
  induction high, ordered using Nat.le_induction with
  | base => exact Nat.le_refl _
  | succ high _ ih =>
    rw [getD_offsets_succ counts (Nat.lt_of_succ_le bound)]
    have := ih (Nat.le_of_succ_le bound)
    omega

/-! ## Filling -/

/-- Where the items of each key begin, slots are left for all of them before those of the next keys. -/
structure Layout (begins : Nat → Nat) (n size : Nat) (items : List (Nat × β)) : Prop where
  inside : ∀ key < n, begins key + (keyed items key).length ≤ size
  apart : ∀ low high, low < high → high < n → begins low + (keyed items low).length ≤ begins high

theorem getD_offsets_counts (items : List (Nat × β)) (bound : key < n) :
    (offsets (counts n items).toList).getD (key + 1) 0 =
      (offsets (counts n items).toList).getD key 0 + (keyed items key).length := by
  have length : (counts n items).toList.length = n := by simp
  rw [getD_offsets_succ _ (length.symm ▸ bound), ← getD_counts items bound]
  simp [Array.getD_eq_getD_getElem?, List.getD_eq_getElem?_getD]

theorem layout_offsets (n : Nat) (items : List (Nat × β)) :
    Layout ((offsets (counts n items).toList).getD · 0) n
      ((offsets (counts n items).toList).getD n 0) items := by
  have length : (counts n items).toList.length = n := by simp
  constructor
  · intro key bound
    rw [← getD_offsets_counts items bound]
    exact offsets_mono _ bound length.ge
  · intro low high before bound
    rw [← getD_offsets_counts items (before.trans bound)]
    exact offsets_mono _ before (length.symm ▸ bound.le)

theorem Layout.before {begins : Nat → Nat} {size : Nat} (layout : Layout begins n size (done ++ rest)) :
    Layout begins n size done := by
  have fewer (key : Nat) : (keyed done key).length ≤ (keyed (done ++ rest) key).length := by
    rw [keyed_append, List.length_append]
    exact Nat.le_add_right _ _
  constructor
  · intro key bound
    have := layout.inside key bound
    have := fewer key
    omega
  · intro low high before bound
    have := layout.apart low high before bound
    have := fewer low
    omega

/-- The slots list the items put so far, and each cursor stands behind those of its key. -/
structure Filling.Holds (filling : Filling β) (begins : Nat → Nat) (n : Nat) (blank : β)
    (done : List (Nat × β)) : Prop where
  size : filling.cursors.size = n
  cursors : ∀ key < n, filling.cursors.getD key 0 = begins key + (keyed done key).length
  listed : ∀ key < n, (List.range' (begins key) (keyed done key).length).map
    (fun slot => filling.slots.getD slot blank) = keyed done key

section Holds

variable {filling : Filling β} {begins : Nat → Nat} {blank : β}

theorem Filling.put_eq (filling : Filling β) {item : Nat × β} (bound : item.1 < filling.cursors.size) :
    filling.put item =
      { slots := filling.slots.setIfInBounds (filling.cursors.getD item.1 0) item.2
        cursors := filling.cursors.setIfInBounds item.1 (filling.cursors.getD item.1 0 + 1) } := by
  simp [put, bound]

theorem Filling.put_eq_self (filling : Filling β) {item : Nat × β}
    (outside : filling.cursors.size ≤ item.1) : filling.put item = filling := by
  simp [put, outside]

@[simp] theorem Filling.size_slots_put (filling : Filling β) (item : Nat × β) :
    (filling.put item).slots.size = filling.slots.size := by
  unfold put
  split
  · rfl
  · exact Array.size_setIfInBounds

theorem map_getD_setIfInBounds (slots : Array β) (value blank : β) {first count slot : Nat}
    (elsewhere : slot < first ∨ first + count ≤ slot) :
    ((List.range' first count).map fun other => (slots.setIfInBounds slot value).getD other blank) =
      (List.range' first count).map fun other => slots.getD other blank := by
  refine List.map_congr_left fun other inside => ?_
  have range := List.mem_range'_1.mp inside
  rw [getD_setIfInBounds, if_neg fun both => by omega]

theorem Filling.Holds.put (holds : filling.Holds begins n blank done) {item : Nat × β}
    (layout : Layout begins n filling.slots.size (done ++ [item])) :
    (filling.put item).Holds begins n blank (done ++ [item]) := by
  have appended (key : Nat) : keyed (done ++ [item]) key =
      keyed done key ++ if item.1 = key then [item.2] else [] := by
    rw [keyed_append, keyed_singleton]
  by_cases bound : item.1 < n
  · have atCursor := holds.cursors item.1 bound
    have space := layout.inside item.1 bound
    rw [appended, if_pos rfl, List.length_append, List.length_singleton] at space
    rw [filling.put_eq (holds.size.symm ▸ bound), atCursor]
    refine ⟨by simp [holds.size], fun key inside => ?_, fun key inside => ?_⟩
    · rw [getD_setIfInBounds, holds.size, appended]
      by_cases same : item.1 = key
      · rw [if_pos ⟨same, bound⟩, if_pos same, same, List.length_append, List.length_singleton]
        omega
      · rw [if_neg fun both => same both.1, if_neg same, List.append_nil]
        exact holds.cursors key inside
    · rw [appended]
      by_cases same : item.1 = key
      · subst same
        rw [if_pos rfl, List.length_append, List.length_singleton, List.range'_1_concat,
          List.map_append, map_getD_setIfInBounds _ _ _ (.inr (Nat.le_refl _)), holds.listed item.1 bound]
        simp [show begins item.1 + (keyed done item.1).length < filling.slots.size by omega]
      · rw [if_neg same, List.append_nil, map_getD_setIfInBounds, holds.listed key inside]
        -- The slots of the two keys lie apart, whichever comes first.
        rcases Nat.lt_or_gt_of_ne same with before | after
        · have := layout.apart item.1 key before inside
          rw [appended, if_pos rfl, List.length_append, List.length_singleton] at this
          omega
        · have := layout.apart key item.1 after bound
          rw [appended, if_neg same, List.append_nil] at this
          omega
  · rw [filling.put_eq_self (holds.size.trans_le (Nat.le_of_not_lt bound))]
    have unseen (key : Nat) (inside : key < n) : keyed (done ++ [item]) key = keyed done key := by
      rw [appended, if_neg fun same => bound (same.trans_lt inside), List.append_nil]
    refine ⟨holds.size, fun key inside => ?_, fun key inside => ?_⟩
    · rw [unseen key inside]
      exact holds.cursors key inside
    · rw [unseen key inside]
      exact holds.listed key inside

theorem Filling.Holds.foldl (empty : filling.Holds begins n blank [])
    (layout : Layout begins n filling.slots.size items) :
    (items.foldl Filling.put filling).Holds begins n blank items := by
  have size (items : List (Nat × β)) :
      (items.foldl Filling.put filling).slots.size = filling.slots.size := by
    induction items using List.reverseRecOn with
    | nil => rfl
    | append_singleton items item ih => rw [List.foldl_append, List.foldl_cons, List.foldl_nil,
        Filling.size_slots_put, ih]
  induction items using List.reverseRecOn with
  | nil => exact empty
  | append_singleton items item ih =>
    rw [List.foldl_append, List.foldl_cons, List.foldl_nil]
    exact (ih layout.before).put (by rwa [size])

end Holds

@[simp] theorem size_arrange (n : Nat) (blank : β) (items : List (Nat × β)) :
    (arrange n blank items).size = n := by simp [arrange]

theorem holds_empty (n : Nat) (blank : β) (items : List (Nat × β)) (slots : Array β) :
    Filling.Holds ⟨slots, (offsets (counts n items).toList).pop⟩
      ((offsets (counts n items).toList).getD · 0) n blank [] where
  size := by simp
  cursors key bound := by
    have popped : key < (offsets (counts n items).toList).size - 1 := by simpa using bound
    simp only [Array.getD_eq_getD_getElem?, Array.getElem?_pop, if_pos popped]
    rfl
  listed _ _ := rfl

theorem getD_arrange (blank : β) (items : List (Nat × β)) (bound : key < n) :
    (arrange n blank items).getD key [] = keyed items key := by
  have layout := layout_offsets n items
  have filled := (holds_empty n blank items
    (Array.replicate ((offsets (counts n items).toList).getD n 0) blank)).foldl (by simpa using layout)
  have listed := filled.listed key bound
  have size : (offsets (counts n items).toList).getD (key + 1) 0 -
      (offsets (counts n items).toList).getD key 0 = (keyed items key).length := by
    rw [getD_offsets_counts items bound, Nat.add_sub_cancel_left]
  rw [← size] at listed
  simp only [arrange, Array.getD_eq_getD_getElem?, List.getElem?_toArray, List.getElem?_map,
    List.getElem?_range bound, Option.map_some, Option.getD_some] at listed ⊢
  exact listed

end CommunityDetection.Buckets
