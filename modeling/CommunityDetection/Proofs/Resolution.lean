import CommunityDetection.Proofs.Keyed
import CommunityDetection.Proofs.Naming
import CommunityDetection.Proofs.Numbering

/-!
# What becomes of seeds

The ids of communities at the start are the first natural numbers in the order of their first nodes
(`eraseDups_number`), and the labels of communities are the seeds of their nodes (`lookup_labels_number`).
Seeds are refused exactly where a node has no label and the ids above the labels run out
(`resolve_error_iff`).
-/

namespace CommunityDetection.Seeding

variable {α : Type} {seeds : List (Option Nat)} {u v : Nat}

/-! ## Ids -/

theorem eraseDups_number (seeds : List (Option Nat)) :
    (number seeds).communities.reverse.eraseDups = List.range (number seeds).next := by
  induction seeds using List.reverseRecOn with
  | nil => rfl
  | append_singleton seeds seed ih =>
    have sound := sound_number seeds
    have fresh : (number seeds).next ∉ (number seeds).communities.reverse := fun member =>
      absurd (sound.bounded _ (List.mem_reverse.mp member)) (lt_irrefl _)
    rw [number_append]
    cases seed with
    | none =>
      simp only [Numbering.extend, List.reverse_cons]
      rw [eraseDups_concat_of_notMem fresh, ih, List.range_succ]
    | some label =>
      cases known : (number seeds).known.lookup label with
      | some community =>
        have below := sound.fresh community label ((sound.inverse community label).mpr known)
        have member := List.mem_reverse.mpr ((mem_communities_number seeds community).mpr below)
        simp only [Numbering.extend_of_known known, List.reverse_cons]
        rw [eraseDups_concat_of_mem member, ih]
      | none =>
        simp only [Numbering.extend_of_unknown known, List.reverse_cons]
        rw [eraseDups_concat_of_notMem fresh, ih, List.range_succ]

/-! ## Labels -/

def Numbering.Recalls (numbering : Numbering) (seeds : List (Option Nat)) : Prop :=
  ∀ pair ∈ numbering.listed seeds, ∀ label, pair.2 = some label →
    numbering.known.lookup label = some pair.1

theorem Numbering.Recalls.extend {numbering : Numbering} (recalls : numbering.Recalls seeds)
    (sound : numbering.Sound seeds) (seed : Option Nat) : (numbering.extend seed).Recalls (seeds ++ [seed]) := by
  unfold Recalls
  cases seed with
  | none =>
    have communities : (numbering.extend none).communities = numbering.next :: numbering.communities := rfl
    rw [sound.listed_append none communities]
    intro pair member label labelled
    rcases List.mem_append.mp member with member | last
    · exact recalls pair member label labelled
    · rw [List.mem_singleton.mp last] at labelled
      cases labelled
  | some given =>
    cases known : numbering.known.lookup given with
    | some community =>
      have extended := Numbering.extend_of_known known
      rw [sound.listed_append (some given) (congrArg Numbering.communities extended), extended]
      intro pair member label labelled
      rcases List.mem_append.mp member with member | last
      · exact recalls pair member label labelled
      · rw [List.mem_singleton.mp last] at labelled ⊢
        cases labelled
        exact known
    | none =>
      have extended := Numbering.extend_of_unknown known
      rw [sound.listed_append (some given) (congrArg Numbering.communities extended), extended]
      intro pair member label labelled
      rw [lookup_cons_eq_ite]
      rcases List.mem_append.mp member with member | last
      · have before := recalls pair member label labelled
        have differ : label ≠ given := by
          rintro rfl
          cases known.symm.trans before
        rw [if_neg differ]
        exact before
      · rw [List.mem_singleton.mp last] at labelled ⊢
        cases labelled
        exact if_pos rfl

theorem recalls_number (seeds : List (Option Nat)) : (number seeds).Recalls seeds := by
  induction seeds using List.reverseRecOn with
  | nil => exact fun _ member => nomatch member
  | append_singleton seeds seed ih =>
    rw [number_append]
    exact ih.extend (sound_number seeds) seed

theorem mem_listed_number (bound : v < seeds.length) :
    (Assignment.of (number seeds).communities.reverse.toArray v, seeds[v]) ∈ (number seeds).listed seeds := by
  have inside : v < (number seeds).communities.reverse.length := by
    rwa [List.length_reverse, (sound_number seeds).length]
  have listed : v < ((number seeds).listed seeds).length := by
    rw [Numbering.listed, List.length_zip]
    omega
  have pair : ((number seeds).listed seeds)[v] =
      (Assignment.of (number seeds).communities.reverse.toArray v, seeds[v]) := by
    rw [of_number seeds inside]
    exact List.getElem_zip
  exact pair ▸ List.getElem_mem listed

theorem lookup_labels_number (bound : v < seeds.length) :
    (number seeds).labels.lookup (Assignment.of (number seeds).communities.reverse.toArray v) = seeds[v] := by
  have listed := mem_listed_number bound
  ext label
  rw [(sound_number seeds).inverse]
  constructor
  · exact (groups_number seeds).known _ listed label
  · exact recalls_number seeds _ listed label

theorem of_number_eq_iff (bound : u < seeds.length) (bounded : v < seeds.length) {label other : Nat}
    (first : seeds[u] = some label) (second : seeds[v] = some other) :
    Assignment.of (number seeds).communities.reverse.toArray u =
        Assignment.of (number seeds).communities.reverse.toArray v ↔ label = other := by
  have atU := (lookup_labels_number bound).trans first
  have atV := (lookup_labels_number bounded).trans second
  constructor
  · intro same
    rw [same, atV] at atU
    exact (Option.some_inj.mp atU).symm
  · rintro rfl
    have sound := sound_number seeds
    rw [sound.inverse] at atU atV
    exact Option.some_inj.mp (atU.symm.trans atV)

/-! ## Refusals -/

theorem unlabelledOffset_error_iff (seeds : List (Option Nat)) :
    (∃ failure, unlabelledOffset (α := α) seeds = .error failure) ↔
      none ∈ seeds ∧ labelBound ≤ (largest? seeds).elim 0 (· + 1) + (seeds.length - 1) := by
  have labelled : seeds.all Option.isSome = true ↔ none ∉ seeds := by
    rw [List.all_eq_true]
    constructor
    · exact fun all member => nomatch all none member
    · exact fun absent seed member => Option.isSome_iff_ne_none.mpr fun missing => absent (missing ▸ member)
  unfold unlabelledOffset
  dsimp only
  by_cases all : seeds.all Option.isSome = true
  · rw [if_pos all]
    exact ⟨fun ⟨_, failed⟩ => (nomatch failed), fun ⟨member, _⟩ => absurd member (labelled.mp all)⟩
  · have member : none ∈ seeds := not_not.mp (mt labelled.mpr all)
    rw [if_neg all]
    split
    · rename_i room
      exact ⟨fun ⟨_, failed⟩ => (nomatch failed), fun ⟨_, full⟩ => absurd room full.not_gt⟩
    · rename_i full
      exact ⟨fun _ => ⟨member, Nat.le_of_not_lt full⟩, fun _ => ⟨_, rfl⟩⟩

theorem resolve_error_iff (n : Nat) (given : Array (Option Nat)) :
    (∃ failure, resolve (α := α) n (some given) = .error failure) ↔
      none ∈ given.toList ∧
        2 ^ 64 - 1 < (largest? given.toList).elim 0 (· + 1) + (given.size - 1) := by
  have refused : (∃ failure, resolve (α := α) n (some given) = .error failure) ↔
      ∃ failure, unlabelledOffset (α := α) given.toList = .error failure := by
    simp only [resolve]
    cases unlabelledOffset (α := α) given.toList <;> simp
  rw [refused, unlabelledOffset_error_iff, Array.length_toList]
  exact Iff.rfl

/-! ## The start -/

/-- What the start makes of given seeds. -/
structure Resolved (given : Array (Option Nat)) (assignment : Assignment) (seeding : Seeding) : Prop where
  size : assignment.size = given.size
  ids : assignment.toList.eraseDups = List.range seeding.communityCount
  together : ∀ {u v label other}, given[u]? = some (some label) → given[v]? = some (some other) →
    (assignment.of u = assignment.of v ↔ label = other)
  alone : ∀ {u v}, given[u]? = some none → v < given.size → assignment.of v = assignment.of u → v = u
  labelled : ∀ {v label}, given[v]? = some (some label) → seeding.outputId (assignment.of v) = label

section Start

variable {n : Nat} {given : Array (Option Nat)} {assignment : Assignment} {seeding : Seeding}

theorem resolved_of_resolve (accepted : resolve (α := α) n (some given) = .ok (assignment, seeding)) :
    Resolved given assignment seeding := by
  obtain ⟨offset, -, rfl, rfl⟩ := resolve_some accepted
  have listed {v : Nat} {seed : Option Nat} (found : given[v]? = some seed) :
      ∃ bound : v < given.toList.length, given.toList[v] = seed := by
    obtain ⟨bound, equal⟩ := Array.getElem?_eq_some_iff.mp found
    exact ⟨bound, equal⟩
  constructor
  · simp [(sound_number given.toList).length]
  · exact eraseDups_number given.toList
  · intro u v label other first second
    obtain ⟨bound, atU⟩ := listed first
    obtain ⟨bounded, atV⟩ := listed second
    exact of_number_eq_iff bound bounded atU atV
  · intro u v none bound same
    obtain ⟨bounded, atU⟩ := listed none
    by_contra differ
    obtain ⟨label, -, found⟩ := label_of_number_eq bound bounded differ same
    cases atU.symm.trans found
  · intro v label found
    obtain ⟨bound, atV⟩ := listed found
    simp only [outputId, lookup_labels_number bound, atV]

theorem outputId_unlabelled (accepted : resolve (α := α) n (some given) = .ok (assignment, seeding)) {u : Nat}
    (unlabelled : given[u]? = some none) :
    (∀ label, some label ∈ given.toList → label < seeding.outputId (assignment.of u)) ∧
      ∀ v < given.size, seeding.outputId (assignment.of v) = seeding.outputId (assignment.of u) → v = u := by
  have resolved := resolved_of_resolve accepted
  -- The number of nodes matters only for a start without seeds.
  have sized : resolve (α := α) given.size (some given) = .ok (assignment, seeding) := accepted
  obtain ⟨within, separates⟩ := separates_resolve sized fun other same => by cases same; rfl
  obtain ⟨bound, equal⟩ := Array.getElem?_eq_some_iff.mp unlabelled
  constructor
  · obtain ⟨offset, opened, rfl, rfl⟩ := resolve_some accepted
    have keyed := keyed_number opened
    have absent := (@lookup_labels_number given.toList u bound).trans equal
    exact (keyed.unlabelled rfl le_rfl within bound absent).above
  · intro v bounded same
    exact resolved.alone unlabelled bounded (separates.injective within bounded bound same)

end Start

/-! ## Labels that are ids -/

theorem number_range (n : Nat) :
    (number ((List.range n).map some)).communities = (List.range n).reverse ∧
      (number ((List.range n).map some)).next = n ∧
      ∀ label, (number ((List.range n).map some)).known.lookup label = if label < n then some label else none := by
  induction n with
  | zero => exact ⟨rfl, rfl, fun _ => rfl⟩
  | succ n ih =>
    obtain ⟨communities, next, known⟩ := ih
    have fresh : (number ((List.range n).map some)).known.lookup n = none := by
      rw [known, if_neg (lt_irrefl n)]
    rw [List.range_succ, List.map_append, List.map_singleton, number_append, Numbering.extend_of_unknown fresh, next]
    refine ⟨?_, rfl, fun label => ?_⟩
    · dsimp only
      rw [communities, List.reverse_append, List.reverse_singleton, List.singleton_append]
    · dsimp only
      rw [List.lookup_cons]
      by_cases last : label = n
      · rw [last, beq_self_eq_true, if_pos (Nat.lt_succ_self n)]
      · rw [beq_false_of_ne last, known]
        exact if_congr (Nat.lt_succ_iff_lt_or_eq.trans (or_iff_left last)).symm rfl rfl

theorem communities_number_range {n : Nat} {again : List Nat} (met : ∀ label ∈ again, label < n) :
    (number ((List.range n ++ again).map some)).communities = (List.range n ++ again).reverse := by
  suffices all : (number ((List.range n ++ again).map some)).known = (number ((List.range n).map some)).known ∧
      (number ((List.range n ++ again).map some)).communities = (List.range n ++ again).reverse from all.2
  obtain ⟨communities, -, known⟩ := number_range n
  induction again using List.reverseRecOn with
  | nil =>
    rw [List.append_nil]
    exact ⟨rfl, communities⟩
  | append_singleton again label ih =>
    obtain ⟨same, earlier⟩ := ih fun other member => met other (List.mem_append_left _ member)
    have found : (number ((List.range n ++ again).map some)).known.lookup label = some label := by
      rw [same, known, if_pos (met label (List.mem_append_right _ (List.mem_singleton_self label)))]
    rw [← List.append_assoc, List.map_append, List.map_singleton, number_append, Numbering.extend_of_known found]
    exact ⟨same, (congrArg (label :: ·) earlier).trans List.reverse_concat.symm⟩

theorem of_range_append (n : Nat) (again : List Nat) (v : Nat) :
    Assignment.of (List.range n ++ again).toArray v = if v < n then v else again.getD (v - n) 0 := by
  rw [Assignment.of, Array.getD_eq_getD_getElem?, List.getElem?_toArray]
  split
  · rename_i lower
    rw [List.getElem?_append_left (by simpa using lower), List.getElem?_range lower, Option.getD_some]
  · rename_i upper
    rw [List.getElem?_append_right (by simpa using upper), List.length_range, List.getD_eq_getElem?_getD]

/-- Labels that count the nodes from zero and then come again are the communities that they name. -/
theorem exists_resolve_range {n : Nat} {again : List Nat} (met : ∀ label ∈ again, label < n) (count : Nat) :
    ∃ seeding, resolve (α := α) count (some ((List.range n ++ again).map some).toArray) =
      .ok ((List.range n ++ again).toArray, seeding) := by
  have all : ((List.range n ++ again).map some).all Option.isSome = true := by simp
  have accepted : ∃ offset, unlabelledOffset (α := α) ((List.range n ++ again).map some) = .ok offset := by
    unfold unlabelledOffset
    dsimp only
    rw [if_pos all]
    exact ⟨_, rfl⟩
  obtain ⟨offset, accepted⟩ := accepted
  refine ⟨.seeded (number ((List.range n ++ again).map some)).labels offset
    (number ((List.range n ++ again).map some)).next, ?_⟩
  simp only [resolve, accepted, communities_number_range met, List.reverse_reverse]
  rfl

end CommunityDetection.Seeding
