import CommunityDetection.Proofs.Naming

/-!
# Seeds with other labels

Seeds whose labels are renamed injectively are numbered alike (`number_relabel`), so only the labels of
communities differ, and the first id above them. `Renamed` relates seedings of this kind, and a seeding
without any labels with one without seeds. It holds of assignments drawn from the communities in use
(`Renamed.drawn`) and on coarse graphs (`Renamed.carry`), and the output ids of the communities
correspond (`Renamed.outputId`).
-/

namespace CommunityDetection.Seeding

variable {α : Type} {f : Nat → Nat} {seeds : List (Option Nat)} {labels : List (Nat × Nat)}
  {assignment : Assignment} {offset other count k m : Nat} {first second : Seeding}

def relabel (f : Nat → Nat) (seeds : List (Option Nat)) : List (Option Nat) := seeds.map (Option.map f)

@[simp] theorem length_relabel (f : Nat → Nat) (seeds : List (Option Nat)) :
    (relabel f seeds).length = seeds.length := List.length_map _

def rename (f : Nat → Nat) (labels : List (Nat × Nat)) : List (Nat × Nat) :=
  labels.map fun pair => (pair.1, f pair.2)

theorem lookup_rename (labels : List (Nat × Nat)) (community : Nat) :
    (rename f labels).lookup community = (labels.lookup community).map f := by
  induction labels with
  | nil => rfl
  | cons pair labels ih =>
    have rest := ih
    unfold rename at rest ⊢
    rw [List.map_cons, lookup_cons_eq_ite, lookup_cons_eq_ite, rest]
    split <;> rfl

/-! ## Numbering -/

def Numbering.relabel (f : Nat → Nat) (numbering : Numbering) : Numbering :=
  { numbering with
    known := numbering.known.map fun pair => (f pair.1, pair.2)
    labels := rename f numbering.labels }

theorem lookup_known (known : List (Nat × Nat)) {label : Nat}
    (injective : ∀ pair ∈ known, f pair.1 = f label → pair.1 = label) :
    (known.map fun pair => (f pair.1, pair.2)).lookup (f label) = known.lookup label := by
  induction known with
  | nil => rfl
  | cons pair known ih =>
    rw [List.map_cons, lookup_cons_eq_ite, lookup_cons_eq_ite,
      ih fun other member => injective other (List.mem_cons_of_mem _ member)]
    have iff : f label = f pair.1 ↔ label = pair.1 :=
      ⟨fun same => (injective pair List.mem_cons_self same.symm).symm, congrArg f⟩
    simp only [iff]

theorem Numbering.extend_relabel {numbering : Numbering} {seed : Option Nat}
    (injective : ∀ label, seed = some label →
      ∀ pair ∈ numbering.known, f pair.1 = f label → pair.1 = label) :
    (numbering.relabel f).extend (seed.map f) = (numbering.extend seed).relabel f := by
  cases seed with
  | none => rfl
  | some label =>
    have known : (numbering.relabel f).known.lookup (f label) = numbering.known.lookup label :=
      lookup_known numbering.known (injective label rfl)
    cases found : numbering.known.lookup label with
    | some community =>
      rw [found] at known
      rw [Option.map_some, Numbering.extend_of_known known, Numbering.extend_of_known found]
      rfl
    | none =>
      rw [found] at known
      rw [Option.map_some, Numbering.extend_of_unknown known, Numbering.extend_of_unknown found]
      rfl

theorem mem_known_number (seeds : List (Option Nat)) :
    ∀ pair ∈ (number seeds).known, some pair.1 ∈ seeds := by
  induction seeds using List.reverseRecOn with
  | nil => exact fun _ member => nomatch member
  | append_singleton seeds seed ih =>
    rw [number_append]
    intro pair member
    cases seed with
    | none => exact List.mem_append_left _ (ih pair member)
    | some label =>
      cases found : (number seeds).known.lookup label with
      | some community =>
        rw [Numbering.extend_of_known found] at member
        exact List.mem_append_left _ (ih pair member)
      | none =>
        rw [Numbering.extend_of_unknown found] at member
        rcases List.mem_cons.mp member with rfl | member
        · simp
        · exact List.mem_append_left _ (ih pair member)

theorem number_relabel (injective : Set.InjOn f {label | some label ∈ seeds}) :
    number (relabel f seeds) = (number seeds).relabel f := by
  induction seeds using List.reverseRecOn with
  | nil => rfl
  | append_singleton seeds seed ih =>
    have before := ih fun _ left _ right same =>
      injective (List.mem_append_left _ left) (List.mem_append_left _ right) same
    rw [number, relabel] at before
    rw [number, number, relabel, List.map_append, List.foldl_append, before, List.foldl_append]
    refine Numbering.extend_relabel fun label given pair member same => ?_
    have listed : some pair.1 ∈ seeds := mem_known_number seeds pair member
    exact injective (List.mem_append_left _ listed) (by simp [given]) same

theorem number_blank (blank : ∀ seed ∈ seeds, seed = none) :
    (number seeds).communities.reverse = List.range seeds.length ∧ (number seeds).labels = [] ∧
      (number seeds).next = seeds.length := by
  induction seeds using List.reverseRecOn with
  | nil => exact ⟨rfl, rfl, rfl⟩
  | append_singleton seeds seed ih =>
    obtain ⟨communities, labels, next⟩ := ih fun other member => blank other (List.mem_append_left _ member)
    rw [number_append, blank seed (by simp)]
    refine ⟨?_, labels, ?_⟩
    · simp only [Numbering.extend, List.reverse_cons, communities, next, List.length_append,
        List.length_singleton, List.range_succ]
    · simp only [Numbering.extend, next, List.length_append, List.length_singleton]

/-! ## Renamed seedings -/

def above (seeds : List (Option Nat)) : Nat := (largest? seeds).elim 0 (· + 1)

/-- The output ids of one community before and after labels are renamed. -/
inductive Renames (f : Nat → Nat) (seeds : List (Option Nat)) : Nat → Nat → Prop
  | labelled {label : Nat} (listed : some label ∈ seeds) : Renames f seeds label (f label)
  | unlabelled {community : Nat} (bound : community < seeds.length) :
      Renames f seeds (above seeds + community) (above (relabel f seeds) + community)

/-- Two seedings of the communities of `k` nodes that differ in the names of labels, or in whether there
are seeds, none of which has a label. -/
inductive Renamed (f : Nat → Nat) (seeds : List (Option Nat)) (assignment : Assignment) (k : Nat) :
    Seeding → Seeding → Prop
  | seeded {labels : List (Nat × Nat)} {offset other count : Nat}
      (keyed : Keyed seeds labels offset assignment k)
      (keyedOther : Keyed (relabel f seeds) (rename f labels) other assignment k) :
      Renamed f seeds assignment k (.seeded labels offset count)
        (.seeded (rename f labels) other count)
  | blank {offset count : Nat} (blank : ∀ seed ∈ seeds, seed = none)
      (keyed : Keyed seeds [] offset assignment k) :
      Renamed f seeds assignment k (.seeded [] offset count) (.unseeded count)

theorem Renamed.drawn (renamed : Renamed f seeds assignment k first second) {moved : Assignment}
    (drawn : ∀ v < k, ∃ u < k, moved.of v = assignment.of u) : Renamed f seeds moved k first second := by
  cases renamed with
  | seeded keyed keyedOther => exact .seeded (keyed.drawn drawn) (keyedOther.drawn drawn)
  | blank blank keyed => exact .blank blank (keyed.drawn drawn)

variable {coarse : Graph α} {previous next : Assignment}

theorem carriedLabels_rename (coarse : Graph α) (previous next : Assignment)
    (labels : List (Nat × Nat)) : carriedLabels coarse previous next (rename f labels) =
      rename f (carriedLabels coarse previous next labels) := by
  unfold carriedLabels
  induction next.toList.zipIdx using List.reverseRecOn with
  | nil => rfl
  | append_singleton pairs pair ih =>
    rw [List.foldl_append, List.foldl_append, ih, List.foldl_cons, List.foldl_cons, lookup_rename]
    cases labels.lookup (previous.of (coarse.toOriginal pair.2)) with
    | none => rfl
    | some label => rfl

theorem carriedLabels_nil (coarse : Graph α) (previous next : Assignment) :
    carriedLabels coarse previous next [] = [] := List.foldl_fixed _

theorem Renamed.carry (renamed : Renamed f seeds previous k first second) (size : next.size = m)
    (same : ∀ i < m, ∀ j < m, next.of i = next.of j ↔
      previous.of (coarse.toOriginal i) = previous.of (coarse.toOriginal j))
    (drawn : ∀ node < m, ∃ u < k, previous.of (coarse.toOriginal node) = previous.of u) :
    Renamed f seeds next m (first.carry coarse previous next) (second.carry coarse previous next) := by
  cases renamed with
  | seeded keyed keyedOther =>
    have below := keyedOther.carry size same drawn
    have right (labels : List (Nat × Nat)) (offset count : Nat) :
        (Seeding.seeded labels offset count).carry coarse previous next =
          .seeded (carriedLabels coarse previous next labels) offset count := rfl
    rw [carriedLabels_rename] at below
    rw [right, right, carriedLabels_rename]
    exact .seeded (keyed.carry size same drawn) below
  | blank blank keyed =>
    have below := keyed.carry size same drawn
    rw [carriedLabels_nil] at below
    have left (offset count : Nat) : (Seeding.seeded [] offset count).carry coarse previous next =
        .seeded (carriedLabels coarse previous next []) offset count := rfl
    rw [left, carriedLabels_nil]
    exact .blank blank below

theorem above_blank (blank : ∀ seed ∈ seeds, seed = none) : above seeds = 0 := by
  have none : seeds.filterMap id = [] :=
    List.filterMap_eq_nil_iff.mpr fun seed member => blank seed member
  rw [above, largest?, none]
  rfl

theorem blank_relabel (f : Nat → Nat) (blank : ∀ seed ∈ seeds, seed = none) :
    ∀ seed ∈ relabel f seeds, seed = none := by
  intro seed member
  obtain ⟨given, listed, rfl⟩ := List.mem_map.mp member
  rw [blank given listed, Option.map_none]

theorem Renamed.outputId (renamed : Renamed f seeds assignment k first second)
    (within : assignment.Within k) (few : k ≤ seeds.length) {v : Nat} (bound : v < k) :
    Renames f seeds (first.outputId (assignment.of v)) (second.outputId (assignment.of v)) := by
  have named := within.bounded v bound
  cases renamed with
  | @seeded labels offset other count keyed keyedOther =>
    have renamed := lookup_rename (f := f) labels (assignment.of v)
    cases found : labels.lookup (assignment.of v) with
    | some label =>
      rw [found, Option.map_some] at renamed
      simp only [Seeding.outputId, found, renamed]
      exact .labelled (keyed.listed _ label found)
    | none =>
      rw [found, Option.map_none] at renamed
      obtain ⟨first, room⟩ := keyed.room_of_unlabelled bound found
      obtain ⟨second, roomOther⟩ := keyedOther.room_of_unlabelled bound renamed
      rw [length_relabel] at roomOther
      simp only [Seeding.outputId, found, renamed]
      rw [min_eq_left (by omega), min_eq_left (by omega), first, second]
      exact .unlabelled (by omega)
  | @blank offset count blank keyed =>
    obtain ⟨first, room⟩ := keyed.room_of_unlabelled bound rfl
    have shown : Seeding.outputId (.seeded [] offset count) (assignment.of v) =
        above seeds + assignment.of v := (min_eq_left (by omega)).trans (by rw [first, above])
    have without : Seeding.outputId (.unseeded count) (assignment.of v) =
        above (relabel f seeds) + assignment.of v := by
      rw [above_blank (blank_relabel f blank), Nat.zero_add]
      rfl
    rw [shown, without]
    exact .unlabelled (by omega)

/-! ## The start -/

/-- Other seeds for the same start: with renamed labels, or none at all where there are no labels. -/
inductive Reseeds (f : Nat → Nat) (given : Array (Option Nat)) : Option (Array (Option Nat)) → Prop
  | renamed (injective : Set.InjOn f {label | some label ∈ given.toList}) :
      Reseeds f given (some (given.map (Option.map f)))
  | blank (blank : ∀ seed ∈ given.toList, seed = none) : Reseeds f given none

theorem renamed_resolve {given : Array (Option Nat)} {reseeded : Option (Array (Option Nat))}
    {n : Nat} {start : Assignment} (reseeds : Reseeds f given reseeded) (sized : given.size = n)
    (resolved : resolve (α := α) n (some given) = .ok (assignment, first))
    (other : resolve (α := α) n reseeded = .ok (start, second)) :
    start = assignment ∧ second.communityCount = first.communityCount ∧
      first.isSeeded = true ∧ second.isSeeded = reseeded.isSome ∧
      Renamed f given.toList assignment n first second := by
  obtain ⟨offset, accepted, rfl, rfl⟩ := resolve_some resolved
  have length : given.toList.length = n := Array.length_toList.trans sized
  have keyed := keyed_number accepted
  rw [length] at keyed
  cases reseeds with
  | renamed injective =>
    obtain ⟨above, acceptedOther, rfl, rfl⟩ := resolve_some other
    have listed : (given.map (Option.map f)).toList = relabel f given.toList := Array.toList_map
    have keyedOther := keyed_number acceptedOther
    rw [listed, length_relabel, length, number_relabel injective] at keyedOther
    rw [listed, number_relabel injective]
    exact ⟨rfl, rfl, rfl, rfl, .seeded keyed keyedOther⟩
  | blank blank =>
    obtain ⟨communities, labels, next⟩ := number_blank blank
    cases other
    rw [labels, communities, length] at keyed
    rw [labels, communities, next, length]
    exact ⟨rfl, rfl, rfl, rfl, .blank blank keyed⟩

end CommunityDetection.Seeding
