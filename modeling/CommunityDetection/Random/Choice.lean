import CommunityDetection.Scalar

/-!
# Random choice by gain

Of several candidates one is chosen with probability proportional to `exp (gain / theta)`. Gains are
taken relative to the largest one, so that a small `theta` leads to the best candidate. The random
number is compared with the cumulative weights by taking them away one by one.
-/

namespace CommunityDetection.Choice

variable {α : Type} [Scalar α]

def weights (exp : α → α) (theta maxGain : α) (candidates : List (Nat × α)) : List α :=
  candidates.map fun candidate => exp ((candidate.2 - maxGain) / theta)

def greedy (candidates : List (Nat × α)) (maxGain : α) : Nat :=
  match candidates.find? fun candidate => maxGain ≤ candidate.2 with
  | some candidate => candidate.1
  | none => (candidates.head?.map Prod.fst).getD 0

/-- The first candidate whose weight exceeds what is left of `remaining` after the weights before
it; `last` if there is none. -/
def locate : (weighted : List (Nat × α)) → (remaining : α) → (last : Nat) → Nat
  | [], _, last => last
  | (candidate, weight) :: rest, remaining, _ =>
    if remaining < weight then candidate else locate rest (remaining - weight) candidate

/-- Chooses a candidate. Nothing is drawn for a single one, nor where the weights have no positive
finite sum. -/
def choose {σ : Type} (exp : α → α) (theta : α) (draw : StateM σ α) (candidates : List (Nat × α))
    (maxGain : α) : StateM σ Nat :=
  match candidates with
  | [only] => pure only.1
  | _ =>
    let weights := weights exp theta maxGain candidates
    let total := Scalar.total weights
    if !Scalar.isFinite total ∨ total ≤ 0 then pure (greedy candidates maxGain)
    else do
      let unit ← draw
      return locate ((candidates.map Prod.fst).zip weights) (unit * total) 0

end CommunityDetection.Choice
