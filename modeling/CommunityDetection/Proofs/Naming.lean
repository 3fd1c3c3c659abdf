import CommunityDetection.Proofs.Seeding

/-!
# Where output ids come from

In a search from seeds every label that a community carries is one of the input labels, and no two
communities carry the same one (`Keyed`). A community without a label gets an id above all of them
(`Keyed.unlabelled`). This holds at the start (`stems_resolve`), for assignments drawn from the
communities in use (`Stems.drawn`) and on coarse graphs (`Stems.carry`).
-/

namespace CommunityDetection.Seeding

variable {α : Type} {seeds : List (Option Nat)} {labels : List (Nat × Nat)} {assignment : Assignment}
  {offset count k m community : Nat} {given : Option (Array (Option Nat))} {seeding : Seeding}

/-- The labels of communities are different input labels. Either the `k` nodes have no community without
one, or there are ids for all of them above the largest. -/
structure Keyed (seeds : List (Option Nat)) (labels : List (Nat × Nat)) (offset : Nat)
    (assignment : Assignment) (k : Nat) : Prop where
  injective : ∀ c d label, labels.lookup c = some label → labels.lookup d = some label → c = d
  listed : ∀ c label, labels.lookup c = some label → some label ∈ seeds
  room : (∀ v < k, ∃ label, labels.lookup (assignment.of v) = some label) ∨
    offset = (largest? seeds).elim 0 (· + 1) ∧ offset + seeds.length ≤ labelBound

inductive Stems (assignment : Assignment) (k : Nat) : Option (Array (Option Nat)) → Seeding → Prop
  | unseeded {count : Nat} : Stems assignment k none (.unseeded count)
  | seeded {seeds : Array (Option Nat)} {labels : List (Nat × Nat)} {offset count : Nat}
      (keyed : Keyed seeds.toList labels offset assignment k) :
      Stems assignment k (some seeds) (.seeded labels offset count)

/-- The output id of a community without a label, in a search over `n` nodes. -/
structure Unlabelled (seeds : List (Option Nat)) (n : Nat) (seeding : Seeding) (community : Nat) :
    Prop where
  above : ∀ label, some label ∈ seeds → label < seeding.outputId community
  most : ∀ largest, largest? seeds = some largest → seeding.outputId community ≤ largest + n
  below : largest? seeds = none → seeding.outputId community < n
  exact : ∃ offset, seeding.offset? = some offset ∧ offset + community < labelBound ∧
    seeding.outputId community = offset + community

theorem Keyed.room_of_unlabelled (keyed : Keyed seeds labels offset assignment k) {a : Nat}
    (bound : a < k) (none : labels.lookup (assignment.of a) = none) :
    offset = (largest? seeds).elim 0 (· + 1) ∧ offset + seeds.length ≤ labelBound := by
  refine keyed.room.resolve_left fun all => ?_
  obtain ⟨label, found⟩ := all a bound
  cases none.symm.trans found

theorem Keyed.unlabelled (keyed : Keyed seeds labels offset assignment k) {n : Nat}
    (length : seeds.length = n) (few : k ≤ n) (within : assignment.Within k) {a : Nat} (bound : a < k)
    (none : labels.lookup (assignment.of a) = none) :
    Unlabelled seeds n (.seeded labels offset count) (assignment.of a) := by
  subst length
  have named := within.bounded a bound
  obtain ⟨first, room⟩ := keyed.room_of_unlabelled bound none
  have shown : outputId (.seeded labels offset count) (assignment.of a) =
      offset + assignment.of a := by
    simp only [outputId, none]
    omega
  constructor
  · intro label listed
    have := lt_of_largest? listed
    omega
  · intro largest found
    rw [found, Option.elim_some] at first
    omega
  · intro absent
    rw [absent, Option.elim_none] at first
    omega
  · exact ⟨offset, rfl, by omega, shown⟩

theorem Keyed.drawn (keyed : Keyed seeds labels offset assignment k) {moved : Assignment}
    (drawn : ∀ v < k, ∃ u < k, moved.of v = assignment.of u) : Keyed seeds labels offset moved k := by
  refine ⟨keyed.injective, keyed.listed, keyed.room.imp_left fun all v bound => ?_⟩
  obtain ⟨u, inside, same⟩ := drawn v bound
  exact same ▸ all u inside

theorem Stems.drawn (stems : Stems assignment k given seeding) {moved : Assignment}
    (drawn : ∀ v < k, ∃ u < k, moved.of v = assignment.of u) : Stems moved k given seeding := by
  cases stems with
  | unseeded => exact .unseeded
  | seeded keyed => exact .seeded (keyed.drawn drawn)

variable {coarse : Graph α} {previous next : Assignment}

theorem Keyed.carry (keyed : Keyed seeds labels offset previous k) (size : next.size = m)
    (same : ∀ i < m, ∀ j < m, next.of i = next.of j ↔
      previous.of (coarse.toOriginal i) = previous.of (coarse.toOriginal j))
    (drawn : ∀ node < m, ∃ u < k, previous.of (coarse.toOriginal node) = previous.of u) :
    Keyed seeds (carriedLabels coarse previous next labels) offset next m := by
  constructor
  · intro c d label left right
    obtain ⟨i, bound, rfl, fromI⟩ := (lookup_carriedLabels_iff size same _ _).mp left
    obtain ⟨j, bounded, rfl, fromJ⟩ := (lookup_carriedLabels_iff size same _ _).mp right
    exact (same i bound j bounded).mpr (keyed.injective _ _ label fromI fromJ)
  · intro c label found
    obtain ⟨i, -, -, fromI⟩ := (lookup_carriedLabels_iff size same _ _).mp found
    exact keyed.listed _ label fromI
  · refine keyed.room.imp_left fun all node bound => ?_
    obtain ⟨u, inside, equal⟩ := drawn node bound
    rw [lookup_carriedLabels size same bound, equal]
    exact all u inside

theorem Stems.carry (stems : Stems previous k given seeding) (size : next.size = m)
    (same : ∀ i < m, ∀ j < m, next.of i = next.of j ↔
      previous.of (coarse.toOriginal i) = previous.of (coarse.toOriginal j))
    (drawn : ∀ node < m, ∃ u < k, previous.of (coarse.toOriginal node) = previous.of u) :
    Stems next m given (seeding.carry coarse previous next) := by
  cases stems with
  | unseeded => exact .unseeded
  | seeded keyed => exact .seeded (keyed.carry size same drawn)

/-! ## The start -/

theorem keyed_number {seeds : List (Option Nat)} {offset : Nat}
    (accepted : unlabelledOffset (α := α) seeds = .ok offset) :
    Keyed seeds (number seeds).labels offset (number seeds).communities.reverse.toArray
      seeds.length := by
  have sound := sound_number seeds
  constructor
  · intro c d label left right
    rw [sound.inverse] at left right
    rw [left] at right
    exact Option.some_inj.mp right
  · exact sound.listed
  · rcases unlabelledOffset_ok accepted with all | ⟨first, room⟩
    · exact .inl fun v bound => sound.labelled all _ (of_number_mem seeds bound)
    · rcases Nat.eq_zero_or_pos seeds.length with none | some
      · exact .inl fun v bound => by omega
      · exact .inr ⟨first, by omega⟩

theorem stems_resolve {n : Nat} (resolved : resolve (α := α) n given = .ok (assignment, seeding))
    (sized : ∀ seeds, given = some seeds → seeds.size = n) : Stems assignment n given seeding := by
  cases given with
  | none =>
    cases resolved
    exact .unseeded
  | some seeds =>
    obtain ⟨offset, accepted, rfl, rfl⟩ := resolve_some resolved
    have keyed := keyed_number accepted
    rw [Array.length_toList, sized seeds rfl] at keyed
    exact .seeded keyed

end CommunityDetection.Seeding
