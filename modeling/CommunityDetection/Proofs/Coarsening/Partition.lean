import CommunityDetection.Proofs.Coarsening.Classes
import CommunityDetection.Proofs.Coarsening.Handover
import CommunityDetection.Proofs.Seeding

/-!
# Partitions of coarse graphs

Where the classes lie inside the communities of an assignment and are named by their members, the
coarse graph takes over the partition and the labels of its communities (`Lies.handsOver`). A coarse
community is named by the first coarse node in it.
-/

namespace CommunityDetection.Coarsening
open Finset

variable {α : Type} {G : Graph α} {assignment classes : Assignment} {n largest : Nat}

/-- Every class is named by one of its members and lies inside a community. -/
structure Lies (assignment classes : Assignment) (n largest : Nat) : Prop where
  covers : Covers classes n largest
  named : ∀ v < n, classes.of v < n ∧ classes.of (classes.of v) = classes.of v
  inside : ∀ u < n, ∀ v < n, classes.of u = classes.of v → assignment.of u = assignment.of v

/-- A coarse graph with `count` communities has the partition of the `n` nodes below and the labels of
their communities. -/
structure HandsOver (coarse : Graph α) (assignment classes : Assignment) (n : Nat) (next : Assignment)
    (count : Nat) : Prop where
  size : next.size = coarse.nodeCount
  found : ∀ v < n, merged coarse classes v < coarse.nodeCount ∧
    coarse.toMapped? (classes.of v) = some (merged coarse classes v)
  onto : ∀ a < coarse.nodeCount, ∃ v < n, merged coarse classes v = a
  same_iff : ∀ u < n, ∀ v < n,
    (next.of (merged coarse classes u) = next.of (merged coarse classes v) ↔
      assignment.of u = assignment.of v)
  least : ∀ a < coarse.nodeCount,
    IsLeast {b | b < coarse.nodeCount ∧ next.of b = next.of a} (next.of a)
  count_eq : count = (assignment.used n).card
  label?_eq : ∀ (seeding : Seeding), ∀ v < n,
    (seeding.carry coarse assignment next).label? (next.of (merged coarse classes v)) =
      seeding.label? (assignment.of v)

theorem Lies.of_name (lies : Lies assignment classes n largest) {v : Nat} (bound : v < n) :
    assignment.of (classes.of v) = assignment.of v := by
  obtain ⟨inside, same⟩ := lies.named v bound
  exact lies.inside _ inside v bound same

variable [Scalar α]

theorem Lies.origin_merged (lies : Lies assignment classes n largest) (G : Graph α) {v : Nat}
    (bound : v < n) :
    origin (graph G classes largest) assignment (merged (graph G classes largest) classes v) =
      assignment.of v := by
  rw [origin, toOriginal_merged G lies.covers bound, lies.of_name bound]

section Carried

variable {coarse : Graph α} {classVolumes : Cells α} {count : Nat} {handover : Handover α}

theorem Carried.card_used (carried : Carried coarse assignment classVolumes count handover) :
    (handover.assignment.used count).card = ((range count).image (origin coarse assignment)).card := by
  -- A name is a coarse node of its community, so the origin of the name is that of the community.
  have injective : Set.InjOn (origin coarse assignment) (handover.assignment.used count) := by
    intro x listed y listedY same
    obtain ⟨a, bound, rfl⟩ := Assignment.mem_used.mp listed
    obtain ⟨b, bounded, rfl⟩ := Assignment.mem_used.mp listedY
    rw [(carried.name_of bound).2, (carried.name_of bounded).2] at same
    exact (carried.same_iff bound bounded).mpr same
  rw [← card_image_of_injOn injective, Assignment.used, image_image]
  congr 1
  exact image_congr fun a inRange => (carried.name_of (mem_range.mp inRange)).2

theorem Carried.label?_carry (carried : Carried coarse assignment classVolumes count handover)
    (seeding : Seeding) {a : Nat} (bound : a < count) :
    (seeding.carry coarse assignment handover.assignment).label? (handover.assignment.of a) =
      seeding.label? (origin coarse assignment a) := by
  cases seeding with
  | unseeded => rfl
  | seeded labels offset communityCount =>
    exact Seeding.lookup_carriedLabels carried.size
      (fun i bound j bounded => carried.same_iff bound bounded) bound

end Carried

theorem Lies.image_origin (lies : Lies assignment classes n largest) (G : Graph α) :
    (range (graph G classes largest).nodeCount).image (origin (graph G classes largest) assignment) =
      assignment.used n := by
  ext community
  rw [mem_image, Assignment.mem_used]
  constructor
  · rintro ⟨a, inRange, rfl⟩
    obtain ⟨v, bound, rfl⟩ := exists_merged G lies.covers (mem_range.mp inRange)
    exact ⟨v, bound, (lies.origin_merged G bound).symm⟩
  · rintro ⟨v, bound, rfl⟩
    exact ⟨_, mem_range.mpr (merged_lt G lies.covers bound), lies.origin_merged G bound⟩

theorem Lies.handsOver (lies : Lies assignment classes n largest) (G : Graph α)
    (classVolumes : Cells α) :
    HandsOver (graph G classes largest) assignment classes n
      (handover (graph G classes largest) assignment classVolumes).assignment
      (handover (graph G classes largest) assignment classVolumes).communityCount := by
  have carried := carried_handover (graph G classes largest) assignment classVolumes
  have origins {v : Nat} (bound : v < n) := lies.origin_merged G bound
  constructor
  · exact carried.size
  · exact fun v bound => ⟨merged_lt G lies.covers bound, toMapped?_graph G lies.covers bound⟩
  · exact fun a bound => exists_merged G lies.covers bound
  · intro u bound v bounded
    rw [carried.same_iff (merged_lt G lies.covers bound) (merged_lt G lies.covers bounded),
      origins bound, origins bounded]
  · exact fun a bound => carried.isLeast bound
  · rw [Handover.communityCount, carried.met, carried.card_used, lies.image_origin]
  · intro seeding v bound
    rw [carried.label?_carry seeding (merged_lt G lies.covers bound), origins bound]

end CommunityDetection.Coarsening
