import CommunityDetection.Assignment
import CommunityDetection.Cells
import CommunityDetection.Proofs.Exact

/-!
# Arrays read by index

How a write changes what is read, for arrays of scalars and for assignments.
-/

namespace CommunityDetection

theorem getD_setIfInBounds {β : Type} (cells : Array β) (index other : Nat) (value fallback : β) :
    (cells.setIfInBounds index value).getD other fallback =
      if index = other ∧ index < cells.size then value else cells.getD other fallback := by
  simp only [Array.getD_eq_getD_getElem?, Array.getElem?_setIfInBounds]
  by_cases same : index = other
  · subst same
    by_cases bound : index < cells.size <;> simp [bound]
  · simp [same]

theorem getD_replicate {β : Type} (size index : Nat) (value : β) :
    (Array.replicate size value).getD index value = value := by
  simp only [Array.getD_eq_getD_getElem?, Array.getElem?_replicate]
  split <;> rfl

theorem lookup_cons_eq_ite {β : Type} (pair : Nat × β) (pairs : List (Nat × β)) (key : Nat) :
    (pair :: pairs).lookup key = if key = pair.1 then some pair.2 else pairs.lookup key := by
  obtain ⟨other, value⟩ := pair
  by_cases same : key = other
  · simp [same]
  · simp [List.lookup_cons, same, beq_eq_false_iff_ne.mpr same]

namespace Cells

variable {α : Type} [Scalar α]

@[simp] theorem size_zeros (size : Nat) : (zeros size : Cells α).size = size := by simp [zeros]

omit [Scalar α] in
@[simp] theorem size_write (cells : Cells α) (index : Nat) (value : α) :
    (cells.write index value).size = cells.size := by simp [write]

@[simp] theorem size_add (cells : Cells α) (index : Nat) (delta : α) :
    (cells.add index delta).size = cells.size := by simp [add]

@[simp] theorem read_zeros (size index : Nat) : (zeros size : Cells α).read index = 0 :=
  getD_replicate size index 0

theorem read_write (cells : Cells α) (index other : Nat) (value : α) :
    (cells.write index value).read other =
      if index = other ∧ index < cells.size then value else cells.read other :=
  getD_setIfInBounds cells index other value 0

theorem read_write_self {cells : Cells α} {index : Nat} (bound : index < cells.size) (value : α) :
    (cells.write index value).read index = value := by simp [read_write, bound]

theorem read_write_of_ne (cells : Cells α) {index other : Nat} (ne : index ≠ other) (value : α) :
    (cells.write index value).read other = cells.read other := by simp [read_write, ne]

theorem read_add_of_ne (cells : Cells α) {index other : Nat} (ne : index ≠ other) (delta : α) :
    (cells.add index delta).read other = cells.read other := read_write_of_ne _ ne _

theorem read_add_self {cells : Cells α} {index : Nat} (bound : index < cells.size) (delta : α) :
    (cells.add index delta).read index = cells.read index + delta := read_write_self bound _

theorem read_add_exact {K : Type} [Field K] [LinearOrder K] {cells : Cells K} {index : Nat}
    (bound : index < cells.size) (delta : K) (other : Nat) :
    (cells.add index delta).read other = cells.read other + if index = other then delta else 0 := by
  by_cases same : index = other
  · subst same
    simp [read_add_self bound]
  · simp [read_add_of_ne cells same, same]

theorem read_add_inside {K : Type} [Field K] [LinearOrder K] {cells : Cells K} {other : Nat}
    (inside : other < cells.size) (index : Nat) (delta : K) :
    (cells.add index delta).read other = cells.read other + if index = other then delta else 0 := by
  by_cases same : index = other
  · subst same
    exact read_add_exact inside delta index
  · simp [read_add_of_ne cells same, same]

theorem add_right_comm {K : Type} [Field K] [LinearOrder K] (cells : Cells K) (i j : Nat) (a b : K) :
    (cells.add i a).add j b = (cells.add j b).add i a := by
  apply Array.ext
  · simp
  · intro k left right
    have inside : k < cells.size := by simpa using left
    have equal : ((cells.add i a).add j b).read k = ((cells.add j b).add i a).read k := by
      rw [read_add_inside (by simpa using inside), read_add_inside inside,
        read_add_inside (by simpa using inside), read_add_inside inside]
      ring
    simpa [read, inside] using equal

end Cells

namespace Assignment

@[simp] theorem size_singletons (n : Nat) : (singletons n).size = n := by simp [singletons]

theorem of_singletons {n node : Nat} (bound : node < n) : (singletons n).of node = node := by
  simp [singletons, of, bound]

@[simp] theorem size_assign (assignment : Assignment) (node community : Nat) :
    (assignment.assign node community).size = assignment.size := by simp [assign]

theorem of_assign_self {assignment : Assignment} {node : Nat} (bound : node < assignment.size)
    (community : Nat) : (assignment.assign node community).of node = community := by
  simp [of, assign, bound]

theorem of_assign_of_ne (assignment : Assignment) {node other : Nat} (ne : node ≠ other)
    (community : Nat) : (assignment.assign node community).of other = assignment.of other := by
  simp [of, assign, ne]

theorem of_assign {assignment : Assignment} {node : Nat} (bound : node < assignment.size)
    (community : Nat) :
    (assignment.assign node community).of = Function.update assignment.of node community := by
  funext other
  by_cases same : other = node
  · subst same
    rw [of_assign_self bound, Function.update_self]
  · rw [of_assign_of_ne assignment (Ne.symm same), Function.update_of_ne same]

theorem zipIdx_toList (assignment : Assignment) :
    assignment.toList.zipIdx =
      (List.range assignment.size).map fun node => (assignment.of node, node) := by
  apply List.ext_getElem
  · simp
  · intro node left right
    have bound : node < assignment.size := by simpa using left
    simp [of, bound]

/-- There is a community for each of `n` nodes, and its id is a node. -/
structure Within (assignment : Assignment) (n : Nat) : Prop where
  size : assignment.size = n
  bounded : ∀ node < n, assignment.of node < n

theorem within_singletons (n : Nat) : (singletons n).Within n where
  size := size_singletons n
  bounded node bound := by rwa [of_singletons bound]

theorem Within.assign {assignment : Assignment} {n : Nat} (within : assignment.Within n) (node : Nat)
    {community : Nat} (inside : community < n) : (assignment.assign node community).Within n := by
  refine ⟨(size_assign _ _ _).trans within.size, fun other bound => ?_⟩
  by_cases same : node = other
  · subst same
    rwa [of_assign_self (bound.trans_eq within.size.symm)]
  · rw [of_assign_of_ne _ same]
    exact within.bounded other bound

def Alike (n : Nat) (left right : Assignment) : Prop :=
  ∀ u < n, ∀ v < n, (left.of u = left.of v ↔ right.of u = right.of v)

theorem exists_alike (n : Nat) (labels : Assignment) :
    ∃ named : Assignment, named.Within n ∧ named.Alike n labels := by
  let leader (v : Nat) : Nat := ((List.range n).find? fun u => labels.of u = labels.of v).getD 0
  have leads : ∀ v < n, leader v < n ∧ labels.of (leader v) = labels.of v := by
    intro v bound
    cases found : (List.range n).find? fun u => labels.of u = labels.of v with
    | none => simpa using List.find?_eq_none.mp found v (List.mem_range.mpr bound)
    | some u =>
      simp only [leader, found, Option.getD_some]
      exact ⟨List.mem_range.mp (List.mem_of_find?_eq_some found),
        by simpa using List.find?_some found⟩
  have named : ∀ v < n, Assignment.of ((List.range n).map leader).toArray v = leader v := by
    intro v bound
    simp [of, bound]
  refine ⟨((List.range n).map leader).toArray, ⟨by simp, fun v bound => ?_⟩, fun u bound v bounded => ?_⟩
  · rw [named v bound]
    exact (leads v bound).1
  · rw [named u bound, named v bounded]
    constructor
    · intro same
      rw [← (leads u bound).2, same, (leads v bounded).2]
    · intro same
      simp only [leader, same]

end Assignment

end CommunityDetection
