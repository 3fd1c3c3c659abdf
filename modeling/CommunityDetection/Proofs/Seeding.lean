import CommunityDetection.Seeding
import CommunityDetection.Proofs.Assignment

/-!
# Output ids

The output ids of the communities in use differ (`Separates.injective`): no two of them have one
label, and ids for communities without a label are left above all labels. This holds at the start
(`separates_resolve`) and for every assignment drawn from the communities in use (`Separates.drawn`),
and it is carried over to coarse graphs (`Separates.carry`).
-/

namespace CommunityDetection.Seeding

variable {α : Type} {assignment : Assignment} {n : Nat} {labels : List (Nat × Nat)} {offset : Nat}

/-- The labels of the communities in use are distinct, and either none is without one or ids are left
above all of them. -/
structure Labelled (labels : List (Nat × Nat)) (offset : Nat) (assignment : Assignment) (n : Nat) :
    Prop where
  distinct : ∀ u < n, ∀ v < n, ∀ label, labels.lookup (assignment.of u) = some label →
    labels.lookup (assignment.of v) = some label → assignment.of u = assignment.of v
  room : (∀ v < n, ∃ label, labels.lookup (assignment.of v) = some label) ∨
    offset + n ≤ labelBound ∧
      ∀ v < n, ∀ label, labels.lookup (assignment.of v) = some label → label < offset

inductive Separates (assignment : Assignment) (n : Nat) : Seeding → Prop
  | unseeded {count : Nat} : Separates assignment n (.unseeded count)
  | seeded {labels : List (Nat × Nat)} {offset count : Nat}
      (labelled : Labelled labels offset assignment n) :
      Separates assignment n (.seeded labels offset count)

theorem Labelled.injective (labelled : Labelled labels offset assignment n)
    (within : assignment.Within n) {u v : Nat} (bound : u < n) (bounded : v < n) {count : Nat}
    (same : outputId (.seeded labels offset count) (assignment.of u) =
      outputId (.seeded labels offset count) (assignment.of v)) :
    assignment.of u = assignment.of v := by
  simp only [outputId] at same
  have inside := within.bounded u bound
  have insideV := within.bounded v bounded
  cases left : labels.lookup (assignment.of u) with
  | some label =>
    cases right : labels.lookup (assignment.of v) with
    | some other =>
      simp only [left, right] at same
      exact labelled.distinct u bound v bounded label left (same ▸ right)
    | none =>
      simp only [left, right] at same
      rcases labelled.room with all | ⟨room, below⟩
      · obtain ⟨_, found⟩ := all v bounded
        simp [right] at found
      · have := below u bound label left
        omega
  | none =>
    rcases labelled.room with all | ⟨room, below⟩
    · obtain ⟨_, found⟩ := all u bound
      simp [left] at found
    · cases right : labels.lookup (assignment.of v) with
      | some other =>
        simp only [left, right] at same
        have := below v bounded other right
        omega
      | none =>
        simp only [left, right] at same
        omega

theorem Separates.injective {seeding : Seeding} (separates : seeding.Separates assignment n)
    (within : assignment.Within n) {u v : Nat} (bound : u < n) (bounded : v < n)
    (same : seeding.outputId (assignment.of u) = seeding.outputId (assignment.of v)) :
    assignment.of u = assignment.of v := by
  cases separates with
  | unseeded => exact same
  | seeded labelled => exact labelled.injective within bound bounded same

theorem Separates.drawn {seeding : Seeding} (separates : seeding.Separates assignment n)
    {moved : Assignment} (drawn : ∀ v < n, ∃ u < n, moved.of v = assignment.of u) :
    seeding.Separates moved n := by
  cases separates with
  | unseeded => exact .unseeded
  | seeded labelled =>
    refine .seeded ⟨fun u bound v bounded label left right => ?_, ?_⟩
    · obtain ⟨x, inside, atU⟩ := drawn u bound
      obtain ⟨y, insideY, atV⟩ := drawn v bounded
      rw [atU] at left ⊢
      rw [atV] at right ⊢
      exact labelled.distinct x inside y insideY label left right
    · rcases labelled.room with all | ⟨room, below⟩
      · refine .inl fun v bounded => ?_
        obtain ⟨y, inside, atV⟩ := drawn v bounded
        exact atV ▸ all y inside
      · refine .inr ⟨room, fun v bounded label found => ?_⟩
        obtain ⟨y, inside, atV⟩ := drawn v bounded
        exact below y inside label (atV ▸ found)

/-! ## Coarse graphs -/

theorem lookup_carried {origin next : Nat → Nat} {count : Nat}
    (consistent : ∀ i < count, ∀ j < count, next i = next j → origin i = origin j)
    (community label : Nat) :
    ((List.range count).foldl (fun carried node =>
        match labels.lookup (origin node) with
        | some label => (next node, label) :: carried
        | none => carried) []).lookup community = some label ↔
      ∃ node < count, next node = community ∧ labels.lookup (origin node) = some label := by
  induction count with
  | zero => simp
  | succ count ih =>
    have rest := ih fun i bound j bounded =>
      consistent i (Nat.lt_succ_of_lt bound) j (Nat.lt_succ_of_lt bounded)
    rw [List.range_succ, List.foldl_append, List.foldl_cons, List.foldl_nil, Nat.exists_lt_succ_right,
      ← rest]
    cases found : labels.lookup (origin count) with
    | none => simp
    | some last =>
      dsimp only
      rw [lookup_cons_eq_ite]
      -- The last node decides, but all nodes with its new community came from one community.
      by_cases same : community = next count
      · rw [if_pos same]
        constructor
        · exact fun equal => .inr ⟨same.symm, equal⟩
        · rintro (earlier | ⟨-, labelled⟩)
          · obtain ⟨node, bound, equal, labelled⟩ := rest.mp earlier
            rw [consistent node (Nat.lt_succ_of_lt bound) count (Nat.lt_succ_self count)
              (equal.trans same), found] at labelled
            exact labelled
          · exact labelled
      · rw [if_neg same]
        simp [Ne.symm same]

variable {coarse : Graph α} {previous next : Assignment} {m : Nat}

def carriedLabels (coarse : Graph α) (previous next : Assignment) (labels : List (Nat × Nat)) :
    List (Nat × Nat) :=
  next.toList.zipIdx.foldl
    (fun carried pair =>
      match labels.lookup (previous.of (coarse.toOriginal pair.2)) with
      | some label => (pair.1, label) :: carried
      | none => carried)
    []

theorem lookup_carriedLabels_iff (size : next.size = m)
    (same : ∀ i < m, ∀ j < m, next.of i = next.of j ↔
      previous.of (coarse.toOriginal i) = previous.of (coarse.toOriginal j)) (community label : Nat) :
    (carriedLabels coarse previous next labels).lookup community = some label ↔
      ∃ node < m, next.of node = community ∧
        labels.lookup (previous.of (coarse.toOriginal node)) = some label := by
  rw [carriedLabels, Assignment.zipIdx_toList, size, List.foldl_map]
  exact lookup_carried (fun i bound j bounded => (same i bound j bounded).mp) community label

theorem lookup_carriedLabels (size : next.size = m)
    (same : ∀ i < m, ∀ j < m, next.of i = next.of j ↔
      previous.of (coarse.toOriginal i) = previous.of (coarse.toOriginal j)) {node : Nat}
    (bound : node < m) :
    (carriedLabels coarse previous next labels).lookup (next.of node) =
      labels.lookup (previous.of (coarse.toOriginal node)) := by
  ext label
  rw [lookup_carriedLabels_iff size same]
  constructor
  · rintro ⟨other, bounded, equal, found⟩
    rw [← (same other bounded node bound).mp equal]
    exact found
  · exact fun found => ⟨node, bound, rfl, found⟩

theorem Separates.carry {seeding : Seeding} (separates : seeding.Separates previous n)
    (size : next.size = m) (fewer : m ≤ n)
    (same : ∀ i < m, ∀ j < m, next.of i = next.of j ↔
      previous.of (coarse.toOriginal i) = previous.of (coarse.toOriginal j))
    (drawn : ∀ node < m, ∃ u < n, previous.of (coarse.toOriginal node) = previous.of u) :
    (seeding.carry coarse previous next).Separates next m := by
  cases separates with
  | unseeded => exact .unseeded
  | @seeded labels offset count labelled =>
    have carried : ∀ node < m, ∃ u < n, previous.of (coarse.toOriginal node) = previous.of u ∧
        (carriedLabels coarse previous next labels).lookup (next.of node) =
          labels.lookup (previous.of u) := by
      intro node bound
      obtain ⟨u, inside, equal⟩ := drawn node bound
      exact ⟨u, inside, equal, by rw [lookup_carriedLabels size same bound, equal]⟩
    refine .seeded ⟨fun i bound j bounded label left right => ?_, ?_⟩
    · obtain ⟨u, inside, atI, equalU⟩ := carried i bound
      obtain ⟨v, insideV, atJ, equalV⟩ := carried j bounded
      rw [same i bound j bounded, atI, atJ]
      exact labelled.distinct u inside v insideV label (equalU ▸ left) (equalV ▸ right)
    · rcases labelled.room with all | ⟨room, below⟩
      · refine .inl fun node bound => ?_
        obtain ⟨u, inside, -, equal⟩ := carried node bound
        exact equal ▸ all u inside
      · refine .inr ⟨by omega, fun node bound label found => ?_⟩
        obtain ⟨u, inside, -, equal⟩ := carried node bound
        exact below u inside label (equal ▸ found)

/-! ## The start -/

theorem number_append (seeds : List (Option Nat)) (seed : Option Nat) :
    number (seeds ++ [seed]) = (number seeds).extend seed := by simp [number]

theorem Numbering.extend_of_known {numbering : Numbering} {label community : Nat}
    (known : numbering.known.lookup label = some community) :
    numbering.extend (some label) =
      { numbering with communities := community :: numbering.communities } := by
  simp only [Numbering.extend, known]

theorem Numbering.extend_of_unknown {numbering : Numbering} {label : Nat}
    (unknown : numbering.known.lookup label = none) :
    numbering.extend (some label) =
      { communities := numbering.next :: numbering.communities
        known := (label, numbering.next) :: numbering.known
        labels := (numbering.next, label) :: numbering.labels
        next := numbering.next + 1 } := by
  simp only [Numbering.extend, unknown]

structure Numbering.Sound (numbering : Numbering) (seeds : List (Option Nat)) : Prop where
  length : numbering.communities.length = seeds.length
  next_le : numbering.next ≤ seeds.length
  bounded : ∀ community ∈ numbering.communities, community < numbering.next
  fresh : ∀ community label, numbering.labels.lookup community = some label →
    community < numbering.next
  inverse : ∀ community label, numbering.labels.lookup community = some label ↔
    numbering.known.lookup label = some community
  listed : ∀ community label, numbering.labels.lookup community = some label → some label ∈ seeds
  labelled : (∀ seed ∈ seeds, seed.isSome) → ∀ community ∈ numbering.communities,
    ∃ label, numbering.labels.lookup community = some label

section Extend

variable {numbering : Numbering} {seeds : List (Option Nat)} {label : Nat}

theorem Numbering.Sound.extend_none (sound : numbering.Sound seeds) :
    (numbering.extend none).Sound (seeds ++ [none]) := by
  refine ⟨by simp [Numbering.extend, sound.length], by simpa [Numbering.extend] using sound.next_le,
    fun community member => ?_,
    fun community label found => Nat.lt_succ_of_lt (sound.fresh community label found), sound.inverse,
    fun community label found => List.mem_append_left _ (sound.listed community label found),
    fun all => ?_⟩
  · rcases List.mem_cons.mp member with rfl | member
    · exact Nat.lt_succ_self _
    · exact Nat.lt_succ_of_lt (sound.bounded community member)
  · have missing := all none (by simp)
    cases missing

theorem Numbering.Sound.extend_known (sound : numbering.Sound seeds) {community : Nat}
    (known : numbering.known.lookup label = some community) :
    (numbering.extend (some label)).Sound (seeds ++ [some label]) := by
  have found := (sound.inverse community label).mpr known
  have count := sound.next_le
  rw [Numbering.extend_of_known known]
  refine ⟨by simp [sound.length], by simp only [List.length_append]; omega,
    fun other member => ?_, sound.fresh, sound.inverse,
    fun other name found => List.mem_append_left _ (sound.listed other name found),
    fun all other member => ?_⟩
  · rcases List.mem_cons.mp member with rfl | member
    · exact sound.fresh other label found
    · exact sound.bounded other member
  · rcases List.mem_cons.mp member with rfl | member
    · exact ⟨label, found⟩
    · exact sound.labelled (fun seed inSeeds => all seed (List.mem_append_left _ inSeeds)) other member

theorem Numbering.Sound.unnamed (sound : numbering.Sound seeds) :
    numbering.labels.lookup numbering.next = none := by
  cases found : numbering.labels.lookup numbering.next with
  | none => rfl
  | some name => exact absurd (sound.fresh _ _ found) (lt_irrefl _)

theorem Numbering.Sound.known_ne_next (sound : numbering.Sound seeds) (name : Nat) :
    numbering.known.lookup name ≠ some numbering.next := by
  rw [ne_eq, ← sound.inverse, sound.unnamed]
  simp

theorem Numbering.Sound.inverse_new (sound : numbering.Sound seeds)
    (unknown : numbering.known.lookup label = none) (other name : Nat) :
    ((numbering.next, label) :: numbering.labels).lookup other = some name ↔
      ((label, numbering.next) :: numbering.known).lookup name = some other := by
  rw [lookup_cons_eq_ite, lookup_cons_eq_ite]
  by_cases same : other = numbering.next <;> by_cases equal : name = label
  · simp [same, equal]
  · simp [same, equal, Ne.symm equal, sound.known_ne_next name]
  · have absent : numbering.labels.lookup other ≠ some label := by
      rw [ne_eq, sound.inverse, unknown]
      simp
    simp [same, equal, Ne.symm same, absent]
  · simp [same, equal, sound.inverse]

theorem Numbering.Sound.extend_new (sound : numbering.Sound seeds)
    (unknown : numbering.known.lookup label = none) :
    (numbering.extend (some label)).Sound (seeds ++ [some label]) := by
  have count := sound.next_le
  rw [Numbering.extend_of_unknown unknown]
  refine ⟨by simp [sound.length], by simp only [List.length_append, List.length_singleton]; omega,
    fun other member => ?_, fun other name found => ?_, sound.inverse_new unknown,
    fun other name found => ?_, fun all other member => ?_⟩
  · rcases List.mem_cons.mp member with rfl | member
    · exact Nat.lt_succ_self _
    · exact Nat.lt_succ_of_lt (sound.bounded other member)
  · rw [lookup_cons_eq_ite] at found
    split at found
    · rename_i same
      exact Nat.lt_succ_of_le (le_of_eq same)
    · exact Nat.lt_succ_of_lt (sound.fresh other name found)
  · rw [lookup_cons_eq_ite] at found
    split at found
    · cases found
      simp
    · exact List.mem_append_left _ (sound.listed other name found)
  · rcases List.mem_cons.mp member with rfl | member
    · exact ⟨label, by simp⟩
    · obtain ⟨name, found⟩ := sound.labelled
        (fun seed inSeeds => all seed (List.mem_append_left _ inSeeds)) other member
      have ne : other ≠ numbering.next := (sound.bounded other member).ne
      exact ⟨name, by rw [lookup_cons_eq_ite, if_neg ne, found]⟩

theorem Numbering.Sound.extend (sound : numbering.Sound seeds) (seed : Option Nat) :
    (numbering.extend seed).Sound (seeds ++ [seed]) := by
  cases seed with
  | none => exact sound.extend_none
  | some label =>
    cases known : numbering.known.lookup label with
    | some community => exact sound.extend_known known
    | none => exact sound.extend_new known

end Extend

theorem sound_number (seeds : List (Option Nat)) : (number seeds).Sound seeds := by
  induction seeds using List.reverseRecOn with
  | nil =>
    refine ⟨rfl, le_rfl, fun _ member => ?_, fun _ _ found => ?_, fun _ _ => ?_, fun _ _ found => ?_,
      fun _ _ member => ?_⟩
    · cases member
    · cases found
    · constructor
      · exact fun found => nomatch found
      · exact fun found => nomatch found
    · cases found
    · cases member
  | append_singleton seeds seed ih =>
    rw [number_append]
    exact ih.extend seed

theorem lt_of_largest? {seeds : List (Option Nat)} {label : Nat} (member : some label ∈ seeds) :
    label < (largest? seeds).elim 0 (· + 1) := by
  have listed : label ∈ seeds.filterMap id := List.mem_filterMap.mpr ⟨some label, member, rfl⟩
  cases found : largest? seeds with
  | none =>
    rw [largest?, List.max?_eq_none_iff] at found
    rw [found] at listed
    cases listed
  | some largest => exact Nat.lt_succ_of_le ((List.max?_eq_some_iff.mp found).2 label listed)

theorem unlabelledOffset_ok {seeds : List (Option Nat)} {offset : Nat}
    (accepted : unlabelledOffset (α := α) seeds = .ok offset) :
    (∀ seed ∈ seeds, seed.isSome) ∨
      offset = (largest? seeds).elim 0 (· + 1) ∧ offset + (seeds.length - 1) < labelBound := by
  unfold unlabelledOffset at accepted
  dsimp only at accepted
  split at accepted
  · rename_i all
    exact .inl fun seed member => by simpa using List.all_eq_true.mp all seed member
  · split at accepted
    · rename_i room
      cases accepted
      exact .inr ⟨rfl, room⟩
    · cases accepted

theorem of_number (seeds : List (Option Nat)) {v : Nat}
    (inside : v < (number seeds).communities.reverse.length) :
    Assignment.of (number seeds).communities.reverse.toArray v =
      (number seeds).communities.reverse[v] := by
  rw [Assignment.of, Array.getD_eq_getD_getElem?, List.getElem?_toArray,
    List.getElem?_eq_getElem inside, Option.getD_some]

theorem of_number_mem (seeds : List (Option Nat)) {v : Nat} (bound : v < seeds.length) :
    Assignment.of (number seeds).communities.reverse.toArray v ∈ (number seeds).communities := by
  rw [of_number seeds (by rwa [List.length_reverse, (sound_number seeds).length])]
  exact List.mem_reverse.mp (List.getElem_mem _)

theorem resolve_some {given : Array (Option Nat)} {seeding : Seeding}
    (resolved : resolve (α := α) n (some given) = .ok (assignment, seeding)) :
    ∃ offset, unlabelledOffset (α := α) given.toList = .ok offset ∧
      assignment = (number given.toList).communities.reverse.toArray ∧
      seeding = .seeded (number given.toList).labels offset (number given.toList).next := by
  simp only [resolve] at resolved
  cases accepted : unlabelledOffset (α := α) given.toList with
  | error fault =>
    rw [accepted] at resolved
    cases resolved
  | ok offset =>
    rw [accepted] at resolved
    cases resolved
    exact ⟨offset, rfl, rfl, rfl⟩

theorem separates_resolve {seeds : Option (Array (Option Nat))} {seeding : Seeding}
    (resolved : resolve (α := α) n seeds = .ok (assignment, seeding))
    (sized : ∀ given, seeds = some given → given.size = n) :
    assignment.Within n ∧ seeding.Separates assignment n := by
  cases seeds with
  | none =>
    cases resolved
    exact ⟨Assignment.within_singletons n, .unseeded⟩
  | some given =>
    have size := sized given rfl
    have sound := sound_number given.toList
    obtain ⟨offset, accepted, rfl, rfl⟩ := resolve_some resolved
    have length : (number given.toList).communities.length = n := by
      rw [sound.length, Array.length_toList, size]
    have member : ∀ v < n, Assignment.of (number given.toList).communities.reverse.toArray v ∈
        (number given.toList).communities := by
      intro v bound
      exact of_number_mem _ (bound.trans_eq (size.symm.trans Array.length_toList.symm))
    refine ⟨⟨by simp [length], fun v bound => ?_⟩, .seeded ⟨?_, ?_⟩⟩
    · have below := sound.bounded _ (member v bound)
      have few := sound.next_le
      rw [Array.length_toList, size] at few
      omega
    · intro u _ v _ label left right
      rw [sound.inverse] at left right
      rw [left] at right
      exact Option.some_inj.mp right
    · rcases unlabelledOffset_ok accepted with all | ⟨first, room⟩
      · exact .inl fun v bound => sound.labelled all _ (member v bound)
      · rcases Nat.eq_zero_or_pos n with rfl | positive
        · exact .inl fun v bound => absurd bound (Nat.not_lt_zero v)
        · rw [Array.length_toList, size] at room
          refine .inr ⟨by omega, fun v _ label found => ?_⟩
          exact first ▸ lt_of_largest? (sound.listed _ label found)

theorem mem_communities_number (seeds : List (Option Nat)) :
    ∀ community, community ∈ (number seeds).communities ↔ community < (number seeds).next := by
  have dense : ∀ community < (number seeds).next, community ∈ (number seeds).communities := by
    induction seeds using List.reverseRecOn with
    | nil => exact fun _ below => absurd below (Nat.not_lt_zero _)
    | append_singleton seeds seed ih =>
      rw [number_append]
      intro community below
      cases seed with
      | none =>
        rcases Nat.lt_succ_iff_lt_or_eq.mp below with earlier | rfl
        · exact List.mem_cons_of_mem _ (ih community earlier)
        · exact List.mem_cons_self
      | some label =>
        cases known : (number seeds).known.lookup label with
        | some found =>
          rw [Numbering.extend_of_known known] at below ⊢
          exact List.mem_cons_of_mem _ (ih community below)
        | none =>
          rw [Numbering.extend_of_unknown known] at below ⊢
          rcases Nat.lt_succ_iff_lt_or_eq.mp below with earlier | rfl
          · exact List.mem_cons_of_mem _ (ih community earlier)
          · exact List.mem_cons_self
  exact fun community => ⟨(sound_number seeds).bounded community, dense community⟩

theorem communityCount_resolve {seeds : Option (Array (Option Nat))}
    (resolved : resolve (α := α) n seeds = .ok (assignment, seeding))
    (sized : ∀ given, seeds = some given → given.size = n) :
    seeding.communityCount = (assignment.used n).card := by
  cases seeds with
  | none =>
    cases resolved
    rw [Assignment.used_singletons, Finset.card_range]
    rfl
  | some given =>
    obtain ⟨offset, -, rfl, rfl⟩ := resolve_some resolved
    have length : (number given.toList).communities.reverse.length = n := by
      rw [List.length_reverse, (sound_number given.toList).length, Array.length_toList,
        sized given rfl]
    have used : Assignment.used (number given.toList).communities.reverse.toArray n =
        Finset.range (number given.toList).next := by
      ext community
      rw [← length, Assignment.mem_used_toArray, List.mem_reverse, mem_communities_number,
        Finset.mem_range]
    rw [used, Finset.card_range]
    rfl

theorem resolve_error {seeds : Option (Array (Option Nat))} {failure : Error α}
    (failed : resolve n seeds = .error failure) : ∃ fault, failure = .invalid fault := by
  cases seeds with
  | none => cases failed
  | some given =>
    unfold resolve unlabelledOffset at failed
    dsimp only at failed
    split at failed
    · cases failed
    · split at failed
      · cases failed
      · cases failed
        exact ⟨_, rfl⟩

end CommunityDetection.Seeding
