import CommunityDetection.Sampler
import Mathlib.Data.List.Basic
import Mathlib.Data.List.Range

/-!
# Lawful samplers

The sampler that searches use visits every node once and chooses among the candidates, whatever the
numbers are (`lawful_boltzmann`). `Sampler.steady` is the lawful sampler without chance that lets
every node stay alone, and `Sampler.eager` the one that merges wherever that gains most.
-/

namespace CommunityDetection

namespace Random

theorem swapIfInBounds_perm (items : Array Nat) (i j : Nat) : (items.swapIfInBounds i j).Perm items := by
  rw [Array.swapIfInBounds_def]
  split
  · split
    · exact Array.swap_perm _ _
    · exact .rfl
  · exact .rfl

theorem shuffleFrom_perm (order : List Nat) (items : Array Nat) (digits : Digits)
    (generator : Generator) : ((shuffleFrom items digits order) generator).1.Perm items := by
  induction order generalizing items digits generator with
  | nil => exact .rfl
  | cons i rest ih => exact (ih _ _ _).trans (swapIfInBounds_perm _ _ _)

theorem shuffle_perm (n : Nat) (generator : Generator) :
    ((shuffle n) generator).1.Perm (List.range n) := by
  unfold shuffle
  dsimp only
  split
  · exact .refl _
  · exact (shuffleFrom_perm (List.range n) (List.range n).toArray ⟨0, 1⟩ generator).toList

end Random

namespace Choice

variable {σ α : Type} [Scalar α]

theorem greedy_mem {candidates : List (Nat × α)} (maxGain : α) (some : candidates ≠ []) :
    greedy candidates maxGain ∈ candidates.map Prod.fst := by
  unfold greedy
  split
  · rename_i found
    exact List.mem_map_of_mem (List.mem_of_find?_eq_some found)
  · cases candidates with
    | nil => exact absurd rfl some
    | cons candidate candidates => simp

theorem locate_mem (weighted : List (Nat × α)) (remaining : α) (last : Nat) :
    locate weighted remaining last ∈ last :: weighted.map Prod.fst := by
  induction weighted generalizing remaining last with
  | nil => exact List.mem_cons_self
  | cons entry weighted ih =>
    obtain ⟨candidate, weight⟩ := entry
    unfold locate
    split
    · simp
    · exact List.mem_cons_of_mem _ (ih (remaining - weight) candidate)

theorem locate_mem_of_ne_nil {weighted : List (Nat × α)} (some : weighted ≠ []) (remaining : α)
    (last : Nat) : locate weighted remaining last ∈ weighted.map Prod.fst := by
  cases weighted with
  | nil => exact absurd rfl some
  | cons entry weighted =>
    obtain ⟨candidate, weight⟩ := entry
    unfold locate
    split
    · simp
    · exact locate_mem weighted (remaining - weight) candidate

theorem choose_mem (exp : α → α) (theta : α) (draw : StateM σ α) (candidates : List (Nat × α))
    (maxGain : α) (state : σ) (some : candidates ≠ []) :
    ((choose exp theta draw candidates maxGain) state).1 ∈ candidates.map Prod.fst := by
  have weighted : ((candidates.map Prod.fst).zip (weights exp theta maxGain candidates)).map Prod.fst =
      candidates.map Prod.fst := List.map_fst_zip (by simp [weights])
  have filled : (candidates.map Prod.fst).zip (weights exp theta maxGain candidates) ≠ [] := by
    intro empty
    rw [empty] at weighted
    exact some (List.map_eq_nil_iff.mp weighted.symm)
  unfold choose
  split
  · exact List.mem_singleton_self _
  · dsimp only
    split
    · exact greedy_mem maxGain some
    · have located := locate_mem_of_ne_nil filled
        ((draw state).1 * Scalar.total (weights exp theta maxGain candidates)) 0
      rwa [weighted] at located

end Choice

namespace Sampler

variable {α : Type} [Scalar α]

theorem lawful_boltzmann (exp : α → α) (theta : α) (seed : BitVec 64) :
    (boltzmann exp theta seed).Lawful where
  order_perm n generator := Random.shuffle_perm n generator
  choose_mem candidates maxGain generator some :=
    Choice.choose_mem exp theta Random.unit candidates maxGain generator some

def steady (α : Type) : Sampler Unit α where
  start _ := ()
  order n := pure (List.range n)
  choose candidates _ := pure ((candidates.head?.map Prod.fst).getD 0)

theorem schedule_steady (α : Type) : (steady α).schedule = {} := rfl

theorem lawful_steady (α : Type) : (steady α).Lawful where
  order_perm _ _ := .refl _
  choose_mem candidates _ _ some := by
    cases candidates with
    | nil => exact absurd rfl some
    | cons candidate candidates => exact List.mem_cons_self

/-- Every choice falls on the first candidate, which is the node itself. -/
def Stays {σ : Type} (sampler : Sampler σ α) : Prop :=
  ∀ candidate candidates maxGain draws, (sampler.choose (candidate :: candidates) maxGain draws).1 = candidate.1

omit [Scalar α] in
theorem stays_steady : (steady α).Stays := fun _ _ _ _ => rfl

def eager (α : Type) [Scalar α] : Sampler Unit α where
  start _ := ()
  order n := pure (List.range n)
  choose candidates maxGain := pure (Choice.greedy candidates maxGain)

theorem lawful_eager (α : Type) [Scalar α] : (eager α).Lawful where
  order_perm _ _ := .refl _
  choose_mem _ maxGain _ some := Choice.greedy_mem maxGain some

end Sampler

end CommunityDetection
