import CommunityDetection.Proofs.Seeding

/-!
# Who starts together

Seeds are numbered so that a community which has a label starts with the nodes given this label, and
any other with a single node (`Numbering.Groups`).
-/

namespace CommunityDetection.Seeding

variable {α : Type}

def Numbering.listed (numbering : Numbering) (seeds : List (Option Nat)) :
    List (Nat × Option Nat) := numbering.communities.reverse.zip seeds

/-- A community that has a label was numbered for nodes with this label only, any other for one node. -/
structure Numbering.Groups (numbering : Numbering) (seeds : List (Option Nat)) : Prop where
  known : ∀ pair ∈ numbering.listed seeds, ∀ label,
    numbering.known.lookup label = some pair.1 → pair.2 = some label
  together : (numbering.listed seeds).Pairwise fun left right =>
    left.1 = right.1 → left.2 = right.2 ∧ left.2.isSome

section Groups

variable {numbering : Numbering} {seeds : List (Option Nat)} {label community : Nat}

theorem Numbering.Sound.listed_append (sound : numbering.Sound seeds) {community : Nat}
    (seed : Option Nat) {next : Numbering}
    (communities : next.communities = community :: numbering.communities) :
    next.listed (seeds ++ [seed]) = numbering.listed seeds ++ [(community, seed)] := by
  have length : numbering.communities.reverse.length = seeds.length := by
    rw [List.length_reverse, sound.length]
  rw [Numbering.listed, communities, List.reverse_cons, List.zip_append length]
  rfl

theorem Numbering.Sound.listed_lt (sound : numbering.Sound seeds) {pair : Nat × Option Nat}
    (member : pair ∈ numbering.listed seeds) : pair.1 < numbering.next :=
  sound.bounded _ (List.mem_reverse.mp (List.of_mem_zip member).1)

theorem Numbering.Groups.append_new (groups : numbering.Groups seeds) (sound : numbering.Sound seeds)
    (seed : Option Nat) : (numbering.listed seeds ++ [(numbering.next, seed)]).Pairwise
      fun left right => left.1 = right.1 → left.2 = right.2 ∧ left.2.isSome := by
  refine List.pairwise_append.mpr ⟨groups.together, List.pairwise_singleton _ _, ?_⟩
  intro left member right last same
  rw [List.mem_singleton.mp last] at same
  exact absurd same (sound.listed_lt member).ne

theorem Numbering.Groups.extend_none (groups : numbering.Groups seeds) (sound : numbering.Sound seeds) :
    (numbering.extend none).Groups (seeds ++ [none]) := by
  have communities : (numbering.extend none).communities =
      numbering.next :: numbering.communities := rfl
  have listed := sound.listed_append none communities
  constructor
  · rw [listed]
    intro pair member label known
    rcases List.mem_append.mp member with member | last
    · exact groups.known pair member label known
    · rw [List.mem_singleton.mp last] at known
      exact absurd known (sound.known_ne_next label)
  · rw [listed]
    exact groups.append_new sound none

theorem Numbering.Groups.extend_known (groups : numbering.Groups seeds) (sound : numbering.Sound seeds)
    (known : numbering.known.lookup label = some community) :
    (numbering.extend (some label)).Groups (seeds ++ [some label]) := by
  have extended := Numbering.extend_of_known known
  have listed := sound.listed_append (some label) (congrArg Numbering.communities extended)
  constructor
  · rw [listed, extended]
    intro pair member other found
    rcases List.mem_append.mp member with member | last
    · exact groups.known pair member other found
    · rw [List.mem_singleton.mp last] at found ⊢
      have same := (sound.inverse _ _).mpr found
      rwa [(sound.inverse _ _).mpr known] at same
  · rw [listed]
    refine List.pairwise_append.mpr ⟨groups.together, List.pairwise_singleton _ _, ?_⟩
    intro left member right last same
    rw [List.mem_singleton.mp last] at same ⊢
    have labelled := groups.known left member label (known.trans (congrArg some same.symm))
    exact ⟨labelled, labelled ▸ rfl⟩

theorem Numbering.Groups.extend_new (groups : numbering.Groups seeds) (sound : numbering.Sound seeds)
    (unknown : numbering.known.lookup label = none) :
    (numbering.extend (some label)).Groups (seeds ++ [some label]) := by
  have extended := Numbering.extend_of_unknown unknown
  have listed := sound.listed_append (some label) (congrArg Numbering.communities extended)
  constructor
  · rw [listed, extended]
    intro pair member other found
    rw [lookup_cons_eq_ite] at found
    rcases List.mem_append.mp member with member | last
    · split at found
      · exact absurd (Option.some_inj.mp found).symm (sound.listed_lt member).ne
      · exact groups.known pair member other found
    · rw [List.mem_singleton.mp last] at found ⊢
      split at found
      · rename_i same
        rw [same]
      · exact absurd found (sound.known_ne_next other)
  · rw [listed]
    exact groups.append_new sound (some label)

theorem Numbering.Groups.extend (groups : numbering.Groups seeds) (sound : numbering.Sound seeds)
    (seed : Option Nat) : (numbering.extend seed).Groups (seeds ++ [seed]) := by
  cases seed with
  | none => exact groups.extend_none sound
  | some label =>
    cases known : numbering.known.lookup label with
    | some community => exact groups.extend_known sound known
    | none => exact groups.extend_new sound known

end Groups

theorem groups_number (seeds : List (Option Nat)) : (number seeds).Groups seeds := by
  induction seeds using List.reverseRecOn with
  | nil => exact ⟨fun _ member => (nomatch member), .nil⟩
  | append_singleton seeds seed ih =>
    rw [number_append]
    exact ih.extend (sound_number seeds) seed

theorem label_of_number_eq {seeds : List (Option Nat)} {u v : Nat} (bound : u < seeds.length)
    (bounded : v < seeds.length) (differ : u ≠ v)
    (same : Assignment.of (number seeds).communities.reverse.toArray u =
      Assignment.of (number seeds).communities.reverse.toArray v) :
    ∃ label, seeds[u] = some label ∧ seeds[v] = some label := by
  wlog before : u < v generalizing u v
  · obtain ⟨label, left, right⟩ := this bounded bound differ.symm same.symm (by omega)
    exact ⟨label, right, left⟩
  · have length : (number seeds).communities.reverse.length = seeds.length := by
      rw [List.length_reverse, (sound_number seeds).length]
    have listed : ((number seeds).listed seeds).length = seeds.length := by
      rw [Numbering.listed, List.length_zip, length, min_self]
    have equal := List.pairwise_iff_getElem.mp (groups_number seeds).together u v (by omega) (by omega)
      before
    simp only [Numbering.listed, List.getElem_zip] at equal
    rw [of_number seeds (by omega), of_number seeds (by omega)] at same
    obtain ⟨seed, labelled⟩ := equal same
    obtain ⟨label, found⟩ := Option.isSome_iff_exists.mp labelled
    exact ⟨label, found, seed ▸ found⟩

theorem label_of_resolve_eq {n : Nat} {given : Option (Array (Option Nat))} {assignment : Assignment}
    {seeding : Seeding} (resolved : resolve (α := α) n given = .ok (assignment, seeding))
    (sized : ∀ seeds, given = some seeds → seeds.size = n) {u v : Nat} (bound : u < n) (bounded : v < n)
    (same : assignment.of u = assignment.of v) :
    u = v ∨ ∃ seeds label, given = some seeds ∧ seeds[u]? = some (some label) ∧
      seeds[v]? = some (some label) := by
  cases given with
  | none =>
    cases resolved
    rw [Assignment.of_singletons bound, Assignment.of_singletons bounded] at same
    exact .inl same
  | some seeds =>
    obtain ⟨offset, -, rfl, rfl⟩ := resolve_some resolved
    have size := sized seeds rfl
    rcases eq_or_ne u v with equal | differ
    · exact .inl equal
    · obtain ⟨label, left, right⟩ := label_of_number_eq (by simpa [size] using bound)
        (by simpa [size] using bounded) differ same
      rw [Array.getElem_toList] at left right
      exact .inr ⟨seeds, label, rfl, left ▸ Array.getElem?_eq_getElem _,
        right ▸ Array.getElem?_eq_getElem _⟩

end CommunityDetection.Seeding
