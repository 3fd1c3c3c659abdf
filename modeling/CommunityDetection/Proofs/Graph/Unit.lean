import CommunityDetection.Proofs.Graph.Build
import CommunityDetection.Proofs.Volume
import CommunityDetection.Proofs.Whole

/-!
# Graphs without weights

A graph without weights is read like one whose relationships all have weight one, except that its volumes
are counted and not added up. Where whole numbers are added exactly, both come to the same
(`volume_asWeighted`, `coefficient_asWeighted`).
-/

namespace CommunityDetection

/-- Whole numbers below a bound are added exactly, and no list without terms has a positive sum. -/
structure Scalar.Counts (α : Type) [Scalar α] (bound : Nat) : Prop where
  zero : ((0 : Nat) : α) = 0
  one : ((1 : Nat) : α) = 1
  add : ∀ {a b : Nat}, a + b < bound → (a : α) + (b : α) = ((a + b : Nat) : α)
  start : ∀ {a : Nat}, a < bound → Scalar.sumStart + (a : α) = a
  empty : ¬(0 : α) < 0 ∧ ¬(0 : α) < Scalar.sumStart

theorem Binary.counts : Scalar.Counts Float (2 ^ 53) where
  zero := by decide +kernel
  one := by decide +kernel
  add := ofNat_add
  start := negativeZero_add
  empty := by decide +kernel

theorem Scalar.counts_exact {K : Type} [Field K] [LinearOrder K] [IsStrictOrderedRing K] (bound : Nat) :
    Scalar.Counts K bound where
  zero := Nat.cast_zero
  one := Nat.cast_one
  add _ := (Nat.cast_add _ _).symm
  start _ := zero_add _
  empty := ⟨lt_irrefl 0, lt_irrefl 0⟩

section Counts

variable {α : Type} [Scalar α] {bound : Nat} (counts : Scalar.Counts α bound)

include counts

theorem Scalar.Counts.foldl_add (numbers : List Nat) {a : Nat} (small : a + numbers.sum < bound) :
    (numbers.map (Nat.cast : Nat → α)).foldl (· + ·) (a : α) = ((a + numbers.sum : Nat) : α) := by
  induction numbers generalizing a with
  | nil => rfl
  | cons number numbers ih =>
    rw [List.sum_cons] at small ⊢
    rw [List.map_cons, List.foldl_cons, counts.add (by omega), ih (by omega), Nat.add_assoc]

theorem Scalar.Counts.total_ones {terms : List α} (ones : ∀ term ∈ terms, term = 1)
    (small : terms.length < bound) : Scalar.total terms = (terms.length : α) := by
  have listed : terms = (List.replicate terms.length 1).map (Nat.cast : Nat → α) := by
    rw [List.map_replicate, counts.one]
    exact List.eq_replicate_of_mem ones
  have sum : (List.replicate terms.length 1).sum = terms.length := by simp
  have added := counts.foldl_add (List.replicate terms.length 1) (a := 0) (by omega)
  rw [← listed, counts.zero, sum, Nat.zero_add] at added
  exact added

theorem Scalar.Counts.sum_eq {numbers : List Nat} (some : numbers ≠ []) (small : numbers.sum < bound) :
    Scalar.sum (numbers.map (Nat.cast : Nat → α)) = (numbers.sum : α) := by
  obtain ⟨first, rest, rfl⟩ := List.exists_cons_of_ne_nil some
  rw [List.sum_cons] at small ⊢
  rw [Scalar.sum, List.map_cons, List.foldl_cons, counts.start (by omega), counts.foldl_add rest small]

end Counts

namespace Graph

variable {α : Type} [Scalar α] {G : Graph α} {bound : Nat} {countLoops : Bool}

def asWeighted (G : Graph α) : Graph α := { G with weighted := true }

structure Unit (G : Graph α) : Prop where
  unweighted : G.weighted = false
  ones : ∀ node, ∀ entry ∈ G.row node, entry.2 = 1

omit [Scalar α] in
theorem degree_le_relationshipCount (G : Graph α) (node : Nat) : G.degree node ≤ G.relationshipCount := by
  rw [relationshipCount, ← List.sum_eq_foldl]
  rcases Nat.lt_or_ge node G.nodeCount with inside | outside
  · rw [degrees_eq]
    exact List.single_le_sum (by simp) _ (List.mem_map_of_mem (List.mem_range.mpr inside))
  · have none : G.row node = [] := by
      rw [row, Array.getD_eq_getD_getElem?, Array.getElem?_eq_none outside]
      rfl
    simp [degree, none]

theorem Unit.volume_asWeighted (unit : G.Unit) (counts : Scalar.Counts α bound)
    (few : G.relationshipCount < bound) (node : Nat) :
    G.asWeighted.volume countLoops node = G.volume countLoops node := by
  have added : G.asWeighted.countsDegrees countLoops = false := rfl
  cases countLoops with
  | false => rw [volume, volume, added, countsDegrees, Bool.and_false]; rfl
  | true =>
    have counted : G.countsDegrees true = true := by rw [countsDegrees, unit.unweighted]; rfl
    have degree : ((G.row node).map Prod.snd).length = G.degree node := List.length_map _
    have ones : ∀ term ∈ (G.row node).map Prod.snd, term = 1 := by
      intro term member
      obtain ⟨entry, listed, rfl⟩ := List.mem_map.mp member
      exact unit.ones node entry listed
    have total := counts.total_ones ones (by
      rw [degree]
      exact (G.degree_le_relationshipCount node).trans_lt few)
    rw [volume, volume, added, counted, if_pos rfl, if_neg (by decide), ← degree, ← total]
    simp [asWeighted, row]

theorem Unit.initial_asWeighted (unit : G.Unit) (counts : Scalar.Counts α bound)
    (few : G.relationshipCount < bound) (assignment : Assignment) (countLoops : Bool)
    (concurrency : Nat) (turns : List Nat) :
    Volumes.initial G.asWeighted assignment countLoops concurrency turns =
      Volumes.initial G assignment countLoops concurrency turns := by
  rw [Volumes.initial_eq, Volumes.initial_eq]
  dsimp only
  have volumes : G.asWeighted.volume countLoops = G.volume countLoops :=
    funext (unit.volume_asWeighted counts few)
  rw [volumes]
  rfl

theorem Unit.coefficient_asWeighted (unit : G.Unit) (counts : Scalar.Counts α bound)
    (few : G.relationshipCount < bound) (assignment : Assignment) (countLoops : Bool)
    (concurrency : Nat) (turns : List Nat) :
    (Volumes.initial G assignment countLoops concurrency turns).coefficient G.asWeighted countLoops =
      (Volumes.initial G assignment countLoops concurrency turns).coefficient G countLoops := by
  have added : G.asWeighted.countsDegrees countLoops = false := rfl
  cases countLoops with
  | false => simp [Volumes.coefficient, countsDegrees]
  | true =>
    have counted : G.countsDegrees true = true := by rw [countsDegrees, unit.unweighted]; rfl
    have volumes : (Volumes.initial G assignment true concurrency turns).nodes.toList =
        G.degrees.map (Nat.cast : Nat → α) := by
      rw [Volumes.initial_eq, degrees_eq, List.map_map]
      refine List.map_congr_left fun node _ => ?_
      rw [volume, counted, if_pos rfl]
      rfl
    have total : G.relationshipCount = G.degrees.sum := List.sum_eq_foldl.symm
    simp only [Volumes.coefficient, added, counted, volumes, total, if_true, Bool.false_eq_true, if_false]
    rcases eq_or_ne G.degrees [] with none | some
    · rw [none, List.sum_nil, counts.zero, if_neg counts.empty.1]
      exact if_neg counts.empty.2
    · rw [counts.sum_eq some (total ▸ few)]

/-! ## Built graphs -/

def unitEdges (pairs : List (Nat × Nat)) : List (Edge α) := pairs.map fun pair => ⟨pair.1, pair.2, 1⟩

theorem unit_of_ofEdges {n : Nat} {pairs : List (Nat × Nat)}
    (built : ofEdges n .undirected pairs = .ok G) : G.Unit := by
  obtain ⟨sound, rfl⟩ := build_ok built
  refine ⟨rfl, fun node entry member => ?_⟩
  rw [row, getD_rowsOf .undirected fun edge listed => (sound edge listed).1] at member
  obtain ⟨edge, listed, contributed⟩ := List.mem_flatMap.mp member
  obtain ⟨pair, -, rfl⟩ := List.mem_map.mp listed
  rcases Edge.mem_entries.mp contributed with ⟨-, rfl⟩ | ⟨-, -, rfl⟩
  · rfl
  · rfl

theorem FromEdges.unit (given : G.FromEdges) (unweighted : G.weighted = false) : G.Unit := by
  induction given with
  | unweighted built => exact unit_of_ofEdges built
  | weighted built =>
    obtain ⟨-, rfl⟩ := build_ok built
    cases unweighted
  | property _ attached ih =>
    unfold withProperty at attached
    split at attached
    · cases attached
      exact ⟨unweighted, (ih unweighted).ones⟩
    · cases attached

theorem ofWeightedEdges_unitEdges (n : Nat) (orientation : Orientation) (pairs : List (Nat × Nat)) :
    ofWeightedEdges n orientation (unitEdges pairs : List (Edge α)) =
      (ofEdges n orientation pairs).map asWeighted := by
  unfold ofWeightedEdges ofEdges build unitEdges
  cases (pairs.map fun pair => (⟨pair.1, pair.2, 1⟩ : Edge α)).findSome? (Edge.fault? n) with
  | some fault => rfl
  | none => rfl

end Graph

end CommunityDetection
