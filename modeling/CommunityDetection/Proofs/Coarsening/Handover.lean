import CommunityDetection.Coarsening
import CommunityDetection.Proofs.Assignment
import CommunityDetection.Proofs.Volume

/-!
# Assignments carried over

The coarse nodes are named one after another. Two of them get one community exactly if their classes
came from one community, which is named by its first coarse node; and in exact arithmetic the volume
of a community is the summed volume of the classes in it.
-/

namespace CommunityDetection.Coarsening
open Finset

section Names

variable {α : Type} [Scalar α]

def origin (coarse : Graph α) (assignment : Assignment) (node : Nat) : Nat :=
  assignment.of (coarse.toOriginal node)

structure Carried (coarse : Graph α) (assignment : Assignment) (classVolumes : Cells α) (count : Nat)
    (handover : Handover α) : Prop where
  size : handover.assignment.size = count
  named : ∀ node < count,
    handover.named.lookup (origin coarse assignment node) = some (handover.assignment.of node)
  first : ∀ community name, handover.named.lookup community = some name →
    name < count ∧ origin coarse assignment name = community
  earliest : ∀ node < count, handover.assignment.of node ≤ node
  met : handover.named.length = (handover.assignment.used count).card
  size_nodes : handover.volumes.nodes.size = count
  volumes : ∀ node < count,
    handover.volumes.nodes.read node = classVolumes.read (coarse.toOriginal node)
  size_communities : handover.volumes.communities.size = coarse.nodeCount

variable {coarse : Graph α} {assignment : Assignment} {classVolumes : Cells α} {count : Nat}
  {handover : Handover α}

theorem carried_start (coarse : Graph α) (assignment : Assignment) (classVolumes : Cells α) :
    Carried coarse assignment classVolumes 0
      { assignment := #[], volumes := ⟨#[], Cells.zeros coarse.nodeCount⟩, named := [] } := by
  refine ⟨rfl, fun _ bound => ?_, fun _ _ found => ?_, fun _ bound => ?_, rfl, rfl,
    fun _ bound => ?_, Cells.size_zeros _⟩
  · cases bound
  · cases found
  · cases bound
  · cases bound

def Handover.name (coarse : Graph α) (assignment : Assignment) (handover : Handover α) (node : Nat) :
    Nat := (handover.named.lookup (origin coarse assignment node)).getD node

theorem of_push (assignment : Assignment) (community node : Nat) :
    Assignment.of (assignment.push community) node =
      if node = assignment.size then community else assignment.of node := by
  simp only [Assignment.of, Array.getD_eq_getD_getElem?, Array.getElem?_push]
  split <;> rfl

theorem read_push (cells : Cells α) (value : α) (index : Nat) :
    Cells.read (cells.push value) index = if index = cells.size then value else cells.read index := by
  simp only [Cells.read, Array.getD_eq_getD_getElem?, Array.getElem?_push]
  split <;> rfl

theorem Carried.name_le (carried : Carried coarse assignment classVolumes count handover) :
    handover.name coarse assignment count ≤ count := by
  unfold Handover.name
  cases found : handover.named.lookup (origin coarse assignment count) with
  | none => exact le_refl count
  | some name => exact (carried.first _ _ found).1.le

theorem lookup_extend (coarse : Graph α) (assignment : Assignment) (classVolumes : Cells α)
    (handover : Handover α) (node community : Nat) :
    (handover.extend coarse assignment classVolumes node).named.lookup community =
      if community = origin coarse assignment node then some (handover.name coarse assignment node)
      else handover.named.lookup community := by
  simp only [Handover.extend, Handover.name, origin]
  cases found : handover.named.lookup (assignment.of (coarse.toOriginal node)) with
  | none =>
    by_cases same : community = assignment.of (coarse.toOriginal node)
    · simp [same]
    · simp [List.lookup_cons, same, beq_eq_false_iff_ne.mpr same]
  | some name =>
    by_cases same : community = assignment.of (coarse.toOriginal node)
    · subst same
      simp [found]
    · simp [same]

theorem Carried.of_extend (carried : Carried coarse assignment classVolumes count handover)
    (node : Nat) : (handover.extend coarse assignment classVolumes count).assignment.of node =
      if node = count then handover.name coarse assignment count else handover.assignment.of node := by
  rw [← carried.size]
  exact of_push _ _ node

theorem Carried.read_extend (carried : Carried coarse assignment classVolumes count handover)
    (node : Nat) : (handover.extend coarse assignment classVolumes count).volumes.nodes.read node =
      if node = count then classVolumes.read (coarse.toOriginal count)
      else handover.volumes.nodes.read node := by
  rw [← carried.size_nodes]
  exact read_push _ _ node

theorem Carried.used_extend (carried : Carried coarse assignment classVolumes count handover) :
    (handover.extend coarse assignment classVolumes count).assignment.used (count + 1) =
      Insert.insert (handover.name coarse assignment count) (handover.assignment.used count) := by
  have earlier : (range count).image
      (handover.extend coarse assignment classVolumes count).assignment.of =
        handover.assignment.used count := by
    apply image_congr
    intro node inRange
    rw [carried.of_extend, if_neg (mem_range.mp inRange).ne]
  rw [Assignment.used, range_add_one, image_insert, earlier, carried.of_extend, if_pos rfl]

theorem Carried.met_extend (carried : Carried coarse assignment classVolumes count handover) :
    (handover.extend coarse assignment classVolumes count).named.length =
      ((handover.extend coarse assignment classVolumes count).assignment.used (count + 1)).card := by
  rw [carried.used_extend]
  cases found : handover.named.lookup (origin coarse assignment count) with
  | some name =>
    obtain ⟨below, same⟩ := carried.first _ _ found
    have again := carried.named name below
    rw [same, found, Option.some_inj] at again
    have known : name ∈ handover.assignment.used count :=
      Assignment.mem_used.mpr ⟨name, below, again.symm⟩
    have listed : (handover.extend coarse assignment classVolumes count).named = handover.named :=
      if_pos (Option.isSome_iff_exists.mpr ⟨name, found⟩)
    rw [listed, Handover.name, found, Option.getD_some, insert_eq_of_mem known, carried.met]
  | none =>
    have fresh : count ∉ handover.assignment.used count := by
      intro member
      obtain ⟨node, below, same⟩ := Assignment.mem_used.mp member
      have := (carried.first _ _ (carried.named node below)).1
      omega
    have listed : (handover.extend coarse assignment classVolumes count).named =
        (origin coarse assignment count, count) :: handover.named :=
      if_neg (by rw [← origin, found]; simp)
    rw [listed, Handover.name, found, Option.getD_none, card_insert_of_notMem fresh, List.length_cons,
      carried.met]

theorem Carried.extend (carried : Carried coarse assignment classVolumes count handover) :
    Carried coarse assignment classVolumes (count + 1)
      (handover.extend coarse assignment classVolumes count) := by
  refine ⟨?_, fun node bound => ?_, fun community name found => ?_, fun node bound => ?_,
    carried.met_extend, ?_, fun node bound => ?_, ?_⟩
  · simp [Handover.extend, carried.size]
  · rw [lookup_extend, carried.of_extend]
    by_cases last : node = count
    · rw [last, if_pos rfl, if_pos rfl]
    · have named := carried.named node (by omega)
      rw [if_neg last, ← named]
      by_cases same : origin coarse assignment node = origin coarse assignment count
      · rw [if_pos same, Handover.name, ← same, named]
        rfl
      · rw [if_neg same]
  · rw [lookup_extend] at found
    by_cases same : community = origin coarse assignment count
    · rw [if_pos same, Option.some_inj] at found
      subst same found
      refine ⟨Nat.lt_succ_of_le carried.name_le, ?_⟩
      unfold Handover.name
      cases met : handover.named.lookup (origin coarse assignment count) with
      | none => rfl
      | some name => exact (carried.first _ _ met).2
    · rw [if_neg same] at found
      obtain ⟨earlier, equal⟩ := carried.first _ _ found
      exact ⟨Nat.lt_succ_of_lt earlier, equal⟩
  · rw [carried.of_extend]
    by_cases last : node = count
    · rw [if_pos last, last]
      exact carried.name_le
    · rw [if_neg last]
      exact carried.earliest node (by omega)
  · simp [Handover.extend, carried.size_nodes]
  · rw [carried.read_extend]
    by_cases last : node = count
    · rw [if_pos last, last]
    · rw [if_neg last]
      exact carried.volumes node (by omega)
  · simp [Handover.extend, carried.size_communities]

theorem carried_foldl (coarse : Graph α) (assignment : Assignment) (classVolumes : Cells α)
    (count : Nat) :
    Carried coarse assignment classVolumes count
      ((List.range count).foldl (Handover.extend coarse assignment classVolumes)
        { assignment := #[], volumes := ⟨#[], Cells.zeros coarse.nodeCount⟩, named := [] }) := by
  induction count with
  | zero => exact carried_start coarse assignment classVolumes
  | succ count ih =>
    rw [List.range_succ, List.foldl_append]
    exact ih.extend

theorem carried_handover (coarse : Graph α) (assignment : Assignment) (classVolumes : Cells α) :
    Carried coarse assignment classVolumes coarse.nodeCount
      (Coarsening.handover coarse assignment classVolumes) :=
  carried_foldl coarse assignment classVolumes coarse.nodeCount

theorem Carried.name_of (carried : Carried coarse assignment classVolumes count handover) {node : Nat}
    (bound : node < count) : handover.assignment.of node < count ∧
      origin coarse assignment (handover.assignment.of node) = origin coarse assignment node :=
  carried.first _ _ (carried.named node bound)

theorem Carried.within (carried : Carried coarse assignment classVolumes count handover) :
    handover.assignment.Within count where
  size := carried.size
  bounded _ bound := (carried.name_of bound).1

theorem Carried.same_iff (carried : Carried coarse assignment classVolumes count handover)
    {left right : Nat} (boundLeft : left < count) (boundRight : right < count) :
    handover.assignment.of left = handover.assignment.of right ↔
      origin coarse assignment left = origin coarse assignment right := by
  constructor
  · intro same
    rw [← (carried.name_of boundLeft).2, same, (carried.name_of boundRight).2]
  · intro same
    have named := carried.named left boundLeft
    rw [same, carried.named right boundRight] at named
    exact (Option.some_inj.mp named).symm

theorem Carried.isLeast (carried : Carried coarse assignment classVolumes count handover) {node : Nat}
    (bound : node < count) :
    IsLeast {other | other < count ∧ handover.assignment.of other = handover.assignment.of node}
      (handover.assignment.of node) := by
  obtain ⟨inside, same⟩ := carried.name_of bound
  constructor
  · exact ⟨inside, (carried.same_iff inside bound).mpr same⟩
  · rintro other ⟨bounded, equal⟩
    rw [← equal]
    exact carried.earliest other bounded

end Names

variable {K : Type} [Field K] [LinearOrder K]

variable {coarse : Graph K} {assignment : Assignment} {classVolumes : Cells K} {count : Nat}
  {handover : Handover K}

theorem Carried.sums_extend (carried : Carried coarse assignment classVolumes count handover)
    (bound : count < coarse.nodeCount)
    (sums : ∀ community, handover.volumes.communities.read community =
      ∑ node ∈ range count with handover.assignment.of node = community,
        handover.volumes.nodes.read node) (community : Nat) :
    (handover.extend coarse assignment classVolumes count).volumes.communities.read community =
      ∑ node ∈ range (count + 1) with
          (handover.extend coarse assignment classVolumes count).assignment.of node = community,
        (handover.extend coarse assignment classVolumes count).volumes.nodes.read node := by
  let next := handover.extend coarse assignment classVolumes count
  have earlier : (∑ node ∈ range count with next.assignment.of node = community,
        next.volumes.nodes.read node) =
      ∑ node ∈ range count with handover.assignment.of node = community,
        handover.volumes.nodes.read node := by
    refine sum_congr (filter_congr fun node inRange => ?_) fun node inFilter => ?_
    · rw [carried.of_extend, if_neg (mem_range.mp inRange).ne]
    · rw [carried.read_extend, if_neg (mem_range.mp (mem_filter.mp inFilter).1).ne]
  have added : next.volumes.communities.read community =
      handover.volumes.communities.read community +
        if handover.name coarse assignment count = community then
          classVolumes.read (coarse.toOriginal count) else 0 :=
    Cells.read_add_exact (by rw [carried.size_communities]; exact carried.name_le.trans_lt bound) _ _
  rw [added, sums, range_add_one, filter_insert, carried.of_extend, if_pos rfl]
  split
  · rw [sum_insert (by simp), earlier, carried.read_extend, if_pos rfl, add_comm]
  · rw [earlier, add_zero]

theorem sound_handover (coarse : Graph K) (assignment : Assignment) (classVolumes : Cells K) :
    (Coarsening.handover coarse assignment classVolumes).volumes.Sound
      (Coarsening.handover coarse assignment classVolumes).assignment coarse.nodeCount := by
  let handed (count : Nat) := (List.range count).foldl (Handover.extend coarse assignment classVolumes)
    { assignment := #[], volumes := ⟨#[], Cells.zeros coarse.nodeCount⟩, named := [] }
  have sums (count : Nat) (bound : count ≤ coarse.nodeCount) (community : Nat) :
      (handed count).volumes.communities.read community =
        ∑ node ∈ range count with (handed count).assignment.of node = community,
          (handed count).volumes.nodes.read node := by
    induction count generalizing community with
    | zero => exact Cells.read_zeros _ _
    | succ count ih =>
      have carried : Carried coarse assignment classVolumes count (handed count) := carried_foldl _ _ _ _
      have step : handed (count + 1) = (handed count).extend coarse assignment classVolumes count := by
        simp only [handed, List.range_succ, List.foldl_append, List.foldl_cons, List.foldl_nil]
      rw [step]
      exact carried.sums_extend bound (ih (Nat.le_of_succ_le bound)) community
  have carried := carried_handover coarse assignment classVolumes
  exact ⟨carried.size_nodes, carried.size_communities, fun community _ => sums _ le_rfl community⟩

end CommunityDetection.Coarsening
