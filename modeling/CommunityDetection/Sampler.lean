import CommunityDetection.Random.Choice
import CommunityDetection.Random.Draw
import CommunityDetection.Schedule

/-!
# Samplers

All chance in the search comes from a sampler: it gives the order in which refinement visits the
nodes, chooses among the candidates for a merge, and has the schedule of the workers. `Sampler.boltzmann`
is the default; statements about the search hold for every sampler with the laws `Sampler.Lawful`, and
for every schedule.
-/

namespace CommunityDetection

structure Sampler (σ α : Type) where
  start : (iteration : Nat) → σ
  order : (n : Nat) → StateM σ (List Nat)
  choose : (candidates : List (Nat × α)) → (maxGain : α) → StateM σ Nat
  schedule : Schedule := {}

namespace Sampler

/-- Every node is visited once, and one of the candidates is chosen. -/
structure Lawful {σ α : Type} (sampler : Sampler σ α) : Prop where
  order_perm (n : Nat) (state : σ) : ((sampler.order n).run state).1.Perm (List.range n)
  choose_mem (candidates : List (Nat × α)) (maxGain : α) (state : σ) : candidates ≠ [] →
    ((sampler.choose candidates maxGain).run state).1 ∈ candidates.map Prod.fst

def boltzmann {α : Type} [Scalar α] (exp : α → α) (theta : α) (seed : BitVec 64) :
    Sampler Random.Generator α where
  start iteration := .ofSeed (Random.iterationSeed seed iteration)
  order := Random.shuffle
  choose := Choice.choose exp theta Random.unit

end Sampler

end CommunityDetection
