import CommunityDetection.Grouping
import CommunityDetection.Proofs.Keyed
import CommunityDetection.Result

/-!
# Groups are a canonical form

The groups of an assignment are the classes of nodes with equal labels, in the order of their first nodes
(`groups_eq`). A map that gathers the nodes of each label gives the same groups, in whatever order it lists its
entries (`gatheredGroups_eq`). Two assignments have the same groups exactly if they put the same nodes together
(`groups_eq_iff`).
-/

namespace CommunityDetection

namespace Assignment
open Buckets

variable {labels other : Assignment} {label u v : Nat} {group : List Nat}

def nodes (labels : Assignment) (label : Nat) : List Nat :=
  (List.range labels.size).filter (labels.of · = label)

@[simp] theorem mem_nodes : v ∈ labels.nodes label ↔ v < labels.size ∧ labels.of v = label := by
  simp [nodes]

theorem pairwise_nodes (labels : Assignment) (label : Nat) : (labels.nodes label).Pairwise (· < ·) :=
  List.pairwise_lt_range.filter _

theorem mem_toList_iff : label ∈ labels.toList ↔ ∃ v < labels.size, labels.of v = label := by
  rw [List.mem_iff_getElem]
  constructor
  · rintro ⟨v, bound, same⟩
    exact ⟨v, by simpa using bound, by simpa [of, Array.length_toList ▸ bound] using same⟩
  · rintro ⟨v, bound, same⟩
    exact ⟨v, by simpa using bound, by simpa [of, bound] using same⟩

theorem insert_eq_revise (groups : List (Nat × List Nat)) (label node : Nat) :
    insert groups label node = revise (fun members => node :: members.getD []) groups label := by
  induction groups with
  | nil => rfl
  | cons group groups ih => simp [insert, revise, ih]

theorem keyed_zipIdx (labels : Assignment) (label : Nat) :
    keyed labels.toList.zipIdx label = labels.nodes label := by
  simp [keyed, zipIdx_toList, nodes, List.filter_map, Function.comp_def]

theorem groups_eq (labels : Assignment) : labels.groups = labels.toList.eraseDups.map labels.nodes := by
  unfold groups
  simp only [insert_eq_revise]
  rw [foldl_revise (fun node members => node :: members.getD []) List.reverse (fun _ => rfl) (by simp),
    List.zipIdx_map_fst, List.map_map]
  simp [Function.comp_def, keyed_zipIdx]

theorem mem_groups : group ∈ labels.groups ↔ ∃ v < labels.size, labels.nodes (labels.of v) = group := by
  simp only [groups_eq, List.mem_map, List.mem_eraseDups, mem_toList_iff]
  constructor
  · rintro ⟨label, ⟨v, bound, rfl⟩, same⟩
    exact ⟨v, bound, same⟩
  · rintro ⟨v, bound, same⟩
    exact ⟨labels.of v, ⟨v, bound, rfl⟩, same⟩

theorem nodes_of_mem (listed : group ∈ labels.groups) (member : v ∈ group) :
    labels.nodes (labels.of v) = group := by
  obtain ⟨u, -, rfl⟩ := mem_groups.mp listed
  rw [(mem_nodes.mp member).2]

theorem ne_nil_of_mem_groups (listed : group ∈ labels.groups) : group ≠ [] := by
  obtain ⟨v, bound, rfl⟩ := mem_groups.mp listed
  exact List.ne_nil_of_mem (mem_nodes.mpr ⟨bound, rfl⟩)

theorem exists_group_iff : (∃ group ∈ labels.groups, u ∈ group ∧ v ∈ group) ↔
    u < labels.size ∧ v < labels.size ∧ labels.of u = labels.of v := by
  constructor
  · rintro ⟨group, listed, left, right⟩
    have same := nodes_of_mem listed right
    rw [← same, mem_nodes] at left
    rw [← same, mem_nodes] at right
    exact ⟨left.1, right.1, left.2⟩
  · rintro ⟨bound, bounded, same⟩
    exact ⟨labels.nodes (labels.of v), mem_groups.mpr ⟨v, bounded, rfl⟩, mem_nodes.mpr ⟨bound, same⟩,
      mem_nodes.mpr ⟨bounded, rfl⟩⟩

/-! ## The order of the groups -/

theorem first_nodes (member : label ∈ labels.toList) :
    first (labels.nodes label) = labels.toList.idxOf label := by
  have bound : labels.toList.idxOf label < labels.size := by
    simpa using List.idxOf_lt_length_iff.mpr member
  have at_first : labels.of (labels.toList.idxOf label) = label := by
    have found := List.getElem?_idxOf member
    rw [Array.getElem?_toList] at found
    simp [of, found]
  have head : (labels.nodes label).head? = some (labels.toList.idxOf label) := by
    rw [nodes, List.head?_filter, List.find?_range_eq_some]
    refine ⟨by simpa using at_first, List.mem_range.mpr bound, fun v before => ?_⟩
    have differs := List.not_of_lt_findIdx before
    simpa [of, before.trans bound] using differs
  rw [first, List.headD_eq_head?_getD, head, Option.getD_some]

theorem pairwise_first (labels : Assignment) :
    labels.groups.Pairwise fun left right => first left < first right := by
  rw [groups_eq, List.pairwise_map]
  refine (pairwise_eraseDups labels.toList).imp_of_mem fun left right less => ?_
  rwa [first_nodes (List.mem_eraseDups.mp left), first_nodes (List.mem_eraseDups.mp right)]

theorem sortGroups_of_perm {yielded : List (List Nat)} (perm : yielded.Perm labels.groups) :
    sortGroups yielded = labels.groups := mergeSort_of_perm first perm (pairwise_first labels)

theorem nodup_groups (labels : Assignment) : labels.groups.Nodup :=
  (pairwise_first labels).imp fun {_ _} less same => less.ne (congrArg first same)

/-! ## Gathering -/

variable {M : Type} {map : KeyMap M (List Nat)}

theorem find?_gather (lawful : map.Lawful) (labels : Assignment) (label : Nat) :
    map.find? (gather map labels) label =
      if label ∈ labels.toList then some (labels.nodes label) else none := by
  have found := KeyMap.find?_foldl lawful (fun node members => members.getD [] ++ [node]) id (fun _ => rfl)
    (fun _ _ _ => rfl) labels.toList.zipIdx label
  rwa [List.zipIdx_map_fst, keyed_zipIdx] at found

theorem gatheredGroups_eq (lawful : map.Lawful) (labels : Assignment) :
    gatheredGroups map labels = labels.groups := by
  apply sortGroups_of_perm
  have listed (label : Nat) (group : List Nat) :
      (label, group) ∈ map.entries (gather map labels) ↔ label ∈ labels.toList ∧ labels.nodes label = group := by
    rw [lawful.mem_entries, find?_gather lawful]
    split <;> simp [*]
  have entries : (map.entries (gather map labels)).Perm
      (labels.toList.eraseDups.map fun label => (label, labels.nodes label)) := by
    rw [List.perm_ext_iff_of_nodup (lawful.nodup_entries _).of_map
      ((nodup_eraseDups _).map fun _ _ same => congrArg Prod.fst same)]
    rintro ⟨label, group⟩
    rw [listed]
    simp
  rw [groups_eq]
  simpa [Function.comp_def] using entries.map Prod.snd

/-! ## Partitions -/

theorem mem_flatten_groups : v ∈ labels.groups.flatten ↔ v < labels.size := by
  rw [List.mem_flatten]
  constructor
  · rintro ⟨group, listed, member⟩
    rw [← nodes_of_mem listed member] at member
    exact (mem_nodes.mp member).1
  · intro bound
    exact ⟨labels.nodes (labels.of v), mem_groups.mpr ⟨v, bound, rfl⟩, mem_nodes.mpr ⟨bound, rfl⟩⟩

theorem flatten_groups_perm (labels : Assignment) : labels.groups.flatten.Perm (List.range labels.size) := by
  have nodup : labels.groups.flatten.Nodup := by
    rw [List.nodup_flatten]
    constructor
    · intro group listed
      obtain ⟨v, -, rfl⟩ := mem_groups.mp listed
      exact (pairwise_nodes labels _).nodup
    · refine (pairwise_first labels).imp_of_mem fun left right less => ?_
      intro v inLeft inRight
      rw [← nodes_of_mem left inLeft, ← nodes_of_mem right inRight] at less
      exact less.ne rfl
  rw [List.perm_ext_iff_of_nodup nodup List.nodup_range]
  exact fun v => mem_flatten_groups.trans List.mem_range.symm

theorem nodes_congr (size : other.size = labels.size) (alike : Alike labels.size other labels)
    (bound : v < labels.size) : other.nodes (other.of v) = labels.nodes (labels.of v) := by
  rw [nodes, nodes, size]
  refine List.filter_congr fun u member => ?_
  simp [alike u (List.mem_range.mp member) v bound]

theorem groups_eq_iff :
    other.groups = labels.groups ↔ other.size = labels.size ∧ Alike labels.size other labels := by
  constructor
  · intro same
    have size : other.size = labels.size := by
      have lengths := (flatten_groups_perm other).length_eq
      rw [same, (flatten_groups_perm labels).length_eq] at lengths
      simpa using lengths.symm
    refine ⟨size, fun u bound v bounded => ?_⟩
    have together : (∃ group ∈ other.groups, u ∈ group ∧ v ∈ group) ↔
        ∃ group ∈ labels.groups, u ∈ group ∧ v ∈ group := by rw [same]
    simpa [exists_group_iff, size, bound, bounded] using together
  · rintro ⟨size, alike⟩
    have perm : other.groups.Perm labels.groups := by
      rw [List.perm_ext_iff_of_nodup (nodup_groups other) (nodup_groups labels)]
      intro group
      simp only [mem_groups, size]
      refine exists_congr fun v => and_congr_right fun bound => ?_
      rw [nodes_congr size alike bound]
    rw [← sortGroups_of_perm perm, sortGroups_of_perm (List.Perm.refl _)]

theorem length_groups (labels : Assignment) : labels.groups.length = labels.toList.toFinset.card := by
  rw [groups_eq, List.length_map, ← List.toFinset_card_of_nodup (nodup_eraseDups labels.toList)]
  congr 1
  ext label
  simp

end Assignment

namespace Result
open Assignment

variable {α : Type}

/-- The groups of a result are not empty, increase, and hold every node once; nodes are in one group exactly if
they have the same community. The first nodes of the groups increase, and there are as many groups as different
communities. They are what comes from gathering the nodes of each community in a map, in whatever order the map
lists its entries. Another result has the same groups exactly if it puts the same nodes together. -/
theorem groups_canonical (result : Result α) :
    let labels : Assignment := result.communities
    (∀ group ∈ result.groups, group ≠ [] ∧ group.Pairwise (· < ·)) ∧
    result.groups.flatten.Perm (List.range labels.size) ∧
    (∀ u < labels.size, ∀ v < labels.size,
      (∃ group ∈ result.groups, u ∈ group ∧ v ∈ group) ↔ labels.of u = labels.of v) ∧
    (result.groups.Pairwise fun left right => first left < first right) ∧
    result.communityCount = labels.toList.toFinset.card ∧
    (∀ {M : Type} {map : KeyMap M (List Nat)}, map.Lawful → gatheredGroups map labels = result.groups) ∧
    ∀ other : Result α, other.groups = result.groups ↔
      other.communities.size = labels.size ∧ Alike labels.size other.communities labels := by
  refine ⟨fun group listed => ⟨ne_nil_of_mem_groups listed, ?_⟩, flatten_groups_perm _, ?_, pairwise_first _,
    length_groups _, fun lawful => gatheredGroups_eq lawful _, fun other => groups_eq_iff⟩
  · obtain ⟨v, -, rfl⟩ := mem_groups.mp listed
    exact pairwise_nodes _ _
  · intro u bound v bounded
    rw [Result.groups, exists_group_iff]
    simp [bound, bounded]

theorem groups_canonical_fiveNodes :
    let result : Result ℚ := ⟨#[7, 2, 7, 5, 2], 1, true, .converged, none, [], 0⟩
    let other : Result ℚ := ⟨#[0, 9, 0, 4, 9], 1, true, .converged, none, [], 0⟩
    gatheredGroups (.listed _) result.communities = [[0, 2], [1, 4], [3]] ∧ other.groups = result.groups ∧
      ∃ group ∈ result.groups, 1 ∈ group ∧ 4 ∈ group := by
  intro result other
  obtain ⟨-, -, together, -, -, gathered, same⟩ := groups_canonical result
  have alike : Alike 5 #[0, 9, 0, 4, 9] #[7, 2, 7, 5, 2] := by
    unfold Alike
    decide
  exact ⟨(gathered (KeyMap.lawful_listed _)).trans (by decide), (same other).mpr ⟨rfl, alike⟩,
    (together 1 (by decide) 4 (by decide)).mpr rfl⟩

end Result

end CommunityDetection
