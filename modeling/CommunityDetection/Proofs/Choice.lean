import CommunityDetection.Proofs.Exact
import CommunityDetection.Proofs.Sampler
import CommunityDetection.Refinement

/-!
# The law of the random choice

In exact arithmetic the weights of the candidates cut the numbers below their total into pieces that follow
one another, and the choice falls on the candidate whose piece holds the random number (`choose_samples`).
Taking the weights away one by one finds this piece (`place?_eq_some_iff`), so the search does not run past
the last candidate.
-/

namespace CommunityDetection

/-! ## What the choice is given -/

section Given

variable {K : Type} [Field K] [LinearOrder K]

theorem Scalar.max_eq_max (x y : K) : Scalar.max x y = Max.max x y := by
  rw [Scalar.max, max_def_lt]

theorem Random.unit_mem_Ico [IsStrictOrderedRing K] (generator : Generator) :
    ((unit : StateM Generator K) generator).1 ∈ Set.Ico 0 1 := by
  have drawn : ((unit : StateM Generator K) generator).1 =
      (((Generator.next generator).1 >>> 11).toNat : K) / ((1 <<< 53 : Nat) : K) := rfl
  have below : ((Generator.next generator).1 >>> 11).toNat < 1 <<< 53 := by
    have := (Generator.next generator).1.isLt
    simp only [BitVec.toNat_ushiftRight, Nat.shiftRight_eq_div_pow]
    omega
  rw [drawn, Set.mem_Ico, div_lt_one (by norm_num)]
  exact ⟨by positivity, by exact_mod_cast below⟩

namespace Refinement

theorem isGreatest_foldl_max (options : List (Nat × K)) (start : K) :
    IsGreatest {gain | gain = start ∨ gain ∈ options.map Prod.snd}
      (options.foldl (fun largest candidate => Scalar.max largest candidate.2) start) := by
  induction options generalizing start with
  | nil =>
    constructor
    · exact .inl rfl
    · rintro gain (rfl | listed)
      · exact le_rfl
      · cases listed
  | cons option options ih =>
    rw [List.foldl_cons, Scalar.max_eq_max]
    obtain ⟨reached, above⟩ := ih (max start option.2)
    have larger := max_le_iff.mp (above (.inl rfl))
    constructor
    · rcases reached with same | listed
      · rcases max_choice start option.2 with first | second
        · exact .inl (same.trans first)
        · exact .inr (List.mem_cons.mpr (.inl (same.trans second)))
      · exact .inr (List.mem_cons_of_mem _ listed)
    · rintro gain (rfl | listed)
      · exact larger.1
      · rcases List.mem_cons.mp listed with rfl | listed
        · exact larger.2
        · exact above (.inr listed)

theorem isGreatest_maxGain (setting : Setting K) (state : State K) (node : Nat) (weights : Tally K) :
    let options := candidates setting state node weights
    IsGreatest {gain | gain ∈ options.map Prod.snd} (maxGain options) := by
  intro options
  -- Zero, from which the fold starts, is the gain of staying alone.
  have stays : {gain | gain = 0 ∨ gain ∈ options.map Prod.snd} = {gain | gain ∈ options.map Prod.snd} := by
    ext gain
    simp [options, candidates]
  have greatest := isGreatest_foldl_max options 0
  rwa [stays] at greatest

end Refinement

end Given

namespace Choice

/-! ## The search for a piece -/

section Place

variable {α : Type} [Scalar α]

/-- The place of the first weight that exceeds what is left of `remaining` after the weights before it. -/
def place? : (weights : List α) → (remaining : α) → Option Nat
  | [], _ => none
  | weight :: rest, remaining =>
    if remaining < weight then some 0 else (place? rest (remaining - weight)).map (· + 1)

theorem place?_cons_of_lt {weight remaining : α} (less : remaining < weight) (rest : List α) :
    place? (weight :: rest) remaining = some 0 := if_pos less

theorem place?_cons_of_not_lt {weight remaining : α} (reached : ¬remaining < weight) (rest : List α) :
    place? (weight :: rest) remaining = (place? rest (remaining - weight)).map (· + 1) := if_neg reached

theorem locate_of_place? {candidates : List (Nat × α)} {weights : List α} {remaining : α} {i : Nat}
    (length : weights.length = candidates.length) (found : place? weights remaining = some i) (last : Nat) :
    ∃ candidate, candidates[i]? = some candidate ∧
      locate ((candidates.map Prod.fst).zip weights) remaining last = candidate.1 := by
  induction weights generalizing candidates remaining i last with
  | nil => simp [place?] at found
  | cons weight weights ih =>
    cases candidates with
    | nil => simp at length
    | cons candidate candidates =>
      by_cases less : remaining < weight
      · rw [place?_cons_of_lt less] at found
        cases found
        exact ⟨candidate, rfl, if_pos less⟩
      · rw [place?_cons_of_not_lt less, Option.map_eq_some_iff] at found
        obtain ⟨j, later, rfl⟩ := found
        obtain ⟨chosen, listed, located⟩ := ih (by simpa using length) later candidate.1
        refine ⟨chosen, listed, ?_⟩
        simpa [locate, less] using located

end Place

section Pieces

variable {K : Type} [Field K] [LinearOrder K] {weights : List K} {x : K} {i : Nat}

/-- A number lies on the piece of a weight: it reaches the sum of the weights before and stays below the sum
that takes in this one. -/
structure Covers (weights : List K) (i : Nat) (x : K) : Prop where
  reached : (weights.take i).sum ≤ x
  below : x < (weights.take (i + 1)).sum

theorem not_covers_nil : ¬Covers [] i x := by
  rintro ⟨reached, below⟩
  simp only [List.take_nil, List.sum_nil] at reached below
  exact below.not_ge reached

theorem covers_cons_zero (weight : K) (weights : List K) :
    Covers (weight :: weights) 0 x ↔ 0 ≤ x ∧ x < weight := by
  constructor
  · rintro ⟨reached, below⟩
    exact ⟨by simpa using reached, by simpa using below⟩
  · rintro ⟨reached, below⟩
    exact ⟨by simpa using reached, by simpa using below⟩

variable [IsStrictOrderedRing K]

theorem covers_cons_succ (weight : K) (weights : List K) :
    Covers (weight :: weights) (i + 1) x ↔ Covers weights i (x - weight) := by
  have sum (j : Nat) : ((weight :: weights).take (j + 1)).sum = weight + (weights.take j).sum := by simp
  constructor
  · rintro ⟨reached, below⟩
    rw [sum] at reached below
    exact ⟨by linarith, by linarith⟩
  · rintro ⟨reached, below⟩
    exact ⟨by rw [sum]; linarith, by rw [sum]; linarith⟩

theorem place?_eq_some_iff (nonneg : ∀ weight ∈ weights, 0 ≤ weight) (start : 0 ≤ x) :
    place? weights x = some i ↔ Covers weights i x := by
  induction weights generalizing x i with
  | nil => simp [place?, not_covers_nil]
  | cons weight weights ih =>
    obtain ⟨-, rest⟩ := List.forall_mem_cons.mp nonneg
    by_cases less : x < weight
    · rw [place?_cons_of_lt less]
      cases i with
      | zero => simp [covers_cons_zero, start, less]
      | succ i =>
        rw [covers_cons_succ]
        constructor
        · intro found
          cases found
        · rintro ⟨reached, -⟩
          have before : 0 ≤ (weights.take i).sum :=
            List.sum_nonneg fun other member => rest other (List.mem_of_mem_take member)
          linarith
    · rw [place?_cons_of_not_lt less]
      cases i with
      | zero => simp [covers_cons_zero, less]
      | succ i =>
        rw [covers_cons_succ, ← ih rest (sub_nonneg.mpr (not_lt.mp less))]
        simp

theorem exists_place? (below : x < weights.sum) (start : 0 ≤ x) : ∃ i, place? weights x = some i := by
  induction weights generalizing x with
  | nil => exact absurd start (by simpa using below)
  | cons weight weights ih =>
    by_cases less : x < weight
    · exact ⟨0, place?_cons_of_lt less weights⟩
    · rw [List.sum_cons] at below
      obtain ⟨i, found⟩ := ih (sub_lt_iff_lt_add'.mpr below) (sub_nonneg.mpr (not_lt.mp less))
      exact ⟨i + 1, by rw [place?_cons_of_not_lt less, found]; rfl⟩

theorem Covers.pos (covers : Covers weights i x) {weight : K} (listed : weights[i]? = some weight) :
    0 < weight := by
  obtain ⟨inside, rfl⟩ := List.getElem?_eq_some_iff.mp listed
  have below := covers.below
  rw [List.sum_take_succ weights i inside] at below
  linarith [covers.reached]

end Pieces

/-! ## The law -/

section Law

variable {K σ : Type} [Field K] [LinearOrder K] {exp : K → K} {theta maxGain : K}
  {candidates : List (Nat × K)}

theorem choose_eq_locate (some : candidates ≠ []) (draw : StateM σ K) (state : σ)
    (positive : 0 < (weights exp theta maxGain candidates).sum) :
    (choose exp theta draw candidates maxGain state).1 =
      locate ((candidates.map Prod.fst).zip (weights exp theta maxGain candidates))
        ((draw state).1 * (weights exp theta maxGain candidates).sum) 0 := by
  unfold choose
  split
  · rename_i only
    simp only [weights, locate, List.map_cons, List.map_nil, List.zip_cons_cons, List.zip_nil_left, ite_self]
    rfl
  · have finite : ¬((!Scalar.isFinite (weights exp theta maxGain candidates).sum) = true ∨
        (weights exp theta maxGain candidates).sum ≤ 0) := by
      simp [positive, Scalar.isFinite]
    dsimp only
    rw [Scalar.total_eq_sum, if_neg finite]
    rfl

theorem weights_nonneg (nonneg : ∀ x, 0 ≤ exp x) :
    ∀ weight ∈ weights exp theta maxGain candidates, 0 ≤ weight := by
  intro weight member
  obtain ⟨candidate, -, rfl⟩ := List.mem_map.mp member
  exact nonneg _

variable [IsStrictOrderedRing K]

theorem sum_weights_pos (zero : exp 0 = 1) (nonneg : ∀ x, 0 ≤ exp x)
    (best : maxGain ∈ candidates.map Prod.snd) : 0 < (weights exp theta maxGain candidates).sum := by
  obtain ⟨candidate, listed, rfl⟩ := List.mem_map.mp best
  have one : (1 : K) ∈ weights exp theta candidate.2 candidates :=
    List.mem_map.mpr ⟨candidate, listed, by rw [sub_self, zero_div, zero]⟩
  exact one_pos.trans_le (List.single_le_sum (weights_nonneg nonneg) 1 one)

theorem choose_place (theta : K) (zero : exp 0 = 1) (nonneg : ∀ x, 0 ≤ exp x)
    (best : maxGain ∈ candidates.map Prod.snd) {draw : StateM σ K} {state : σ}
    (unit : (draw state).1 ∈ Set.Ico 0 1) :
    ∃ i candidate,
      place? (weights exp theta maxGain candidates)
        ((draw state).1 * (weights exp theta maxGain candidates).sum) = some i ∧
      candidates[i]? = some candidate ∧ (choose exp theta draw candidates maxGain state).1 = candidate.1 := by
  have positive : 0 < (weights exp theta maxGain candidates).sum := sum_weights_pos zero nonneg best
  have filled : candidates ≠ [] := by
    rintro rfl
    simp at best
  obtain ⟨i, found⟩ := exists_place? (mul_lt_of_lt_one_left positive unit.2) (mul_nonneg unit.1 positive.le)
  have length : (weights exp theta maxGain candidates).length = candidates.length := by simp [weights]
  obtain ⟨candidate, listed, located⟩ := locate_of_place? length found 0
  exact ⟨i, candidate, found, listed, (choose_eq_locate filled draw state positive).trans located⟩

/-- The choice among candidates with the right largest gain falls on the one candidate whose piece holds the
random number, whatever the exponential function is as long as it has no negative values and is one at zero.
So the search ends before it runs out of candidates, no candidate of weight zero is chosen, and where all
candidates but the best have weight zero one of the best is chosen. In refinement the gain given is the
largest one, and the numbers drawn lie in the unit interval. With any numbers, binary64 ones that are infinite
or not a number included, one of the candidates is chosen. -/
theorem choose_samples :
    (∀ (exp : K → K), exp 0 = 1 → (∀ x, 0 ≤ exp x) → ∀ (candidates : List (Nat × K)) (maxGain : K),
      IsGreatest {gain | gain ∈ candidates.map Prod.snd} maxGain →
      ∀ (theta : K) (draw : StateM σ K) (state : σ), (draw state).1 ∈ Set.Ico 0 1 →
      let weights := weights exp theta maxGain candidates
      let number := (draw state).1 * weights.sum
      ∃ i candidate, candidates[i]? = some candidate ∧
        (choose exp theta draw candidates maxGain state).1 = candidate.1 ∧
        (∀ j, Covers weights j number ↔ j = i) ∧
        place? weights number = some i ∧
        0 < exp ((candidate.2 - maxGain) / theta) ∧
        ((∀ other ∈ candidates, other.2 < maxGain → exp ((other.2 - maxGain) / theta) = 0) →
          candidate.2 = maxGain)) ∧
    (∀ (setting : Refinement.Setting K) (state : Refinement.State K) (node : Nat) (weights : Tally K),
      let candidates := Refinement.candidates setting state node weights
      IsGreatest {gain | gain ∈ candidates.map Prod.snd} (Refinement.maxGain candidates)) ∧
    (∀ generator, ((Random.unit : StateM Random.Generator K) generator).1 ∈ Set.Ico 0 1) ∧
    ∀ {α : Type} [Scalar α] (exp : α → α) (theta : α) (draw : StateM σ α) (candidates : List (Nat × α))
      (maxGain : α) (state : σ), candidates ≠ [] →
      (choose exp theta draw candidates maxGain state).1 ∈ candidates.map Prod.fst := by
  refine ⟨?_, Refinement.isGreatest_maxGain, Random.unit_mem_Ico, choose_mem⟩
  intro exp zero nonneg candidates maxGain greatest theta draw state unit weights number
  obtain ⟨i, candidate, found, listed, chosen⟩ := choose_place theta zero nonneg greatest.1 unit
  have start : 0 ≤ number := mul_nonneg unit.1 (sum_weights_pos zero nonneg greatest.1).le
  have covers (j : Nat) : place? weights number = some j ↔ Covers weights j number :=
    place?_eq_some_iff (weights_nonneg nonneg) start
  have weighed : weights[i]? = some (exp ((candidate.2 - maxGain) / theta)) := by
    simp [weights, Choice.weights, listed]
  have positive := ((covers i).mp found).pos weighed
  refine ⟨i, candidate, listed, chosen, fun j => ?_, found, positive, fun others => ?_⟩
  · rw [← covers j, found, Option.some_inj, eq_comm]
  · have member := List.mem_of_getElem? listed
    by_contra other
    have lower := lt_of_le_of_ne (greatest.2 (List.mem_map_of_mem member)) other
    exact positive.ne' (others candidate member lower)

end Law

theorem choose_samples_half :
    (choose Real.exp 1 (pure (1 / 2) : StateM Unit ℝ) [(0, 0), (4, 1 / 2), (9, 2)] 2 ()).1 = 9 ∧
      (choose (fun x => x) 0 (pure 0 : StateM Unit Float) [(3, 0 / 0), (5, 1 / 0)] (0 / 0) ()).1 ∈ [3, 5] := by
  obtain ⟨exact, -, -, any⟩ := @choose_samples ℝ Unit _ _ _
  refine ⟨?_, any (fun x => x) 0 (pure 0) [(3, 0 / 0), (5, 1 / 0)] (0 / 0) () (by simp)⟩
  have greatest : IsGreatest {gain | gain ∈ [((0 : Nat), (0 : ℝ)), (4, 1 / 2), (9, 2)].map Prod.snd} 2 := by
    constructor
    · simp
    · rintro gain member
      simp only [List.map_cons, List.map_nil, Set.mem_ofPred_eq, List.mem_cons, List.not_mem_nil, or_false]
        at member
      rcases member with rfl | rfl | rfl <;> norm_num
  obtain ⟨i, candidate, listed, chosen, covers, -⟩ := exact Real.exp Real.exp_zero (fun x => (Real.exp_pos x).le)
    [(0, 0), (4, 1 / 2), (9, 2)] 2 greatest 1 (pure (1 / 2)) () (by norm_num [pure, StateT.pure])
  have weighed : weights Real.exp 1 2 [(0, 0), (4, 1 / 2), (9, 2)] =
      [Real.exp (-2), Real.exp (-(3 / 2)), 1] := by
    norm_num [weights]
  have half : ((pure (1 / 2) : StateM Unit ℝ) ()).1 = 1 / 2 := rfl
  have small (x : ℝ) (far : 1 ≤ x) : Real.exp (-x) ≤ 1 / 2 := by
    rw [Real.exp_neg, one_div]
    exact inv_anti₀ two_pos (by linarith [Real.add_one_le_exp x])
  -- The last weight is one, and those before it come to less.
  obtain rfl : 2 = i := by
    apply (covers 2).mp
    rw [weighed, half]
    constructor
    · simp only [List.take_succ_cons, List.take_zero, List.sum_cons, List.sum_nil]
      linarith [small 2 (by norm_num), small (3 / 2) (by norm_num)]
    · simp only [List.take_succ_cons, List.take_zero, List.sum_cons, List.sum_nil]
      linarith [Real.exp_pos (-2), Real.exp_pos (-(3 / 2))]
  cases listed
  exact chosen

end Choice

end CommunityDetection
