import CommunityDetection.Proofs.Graph.Linked

/-!
# Condensed graphs

A graph condenses another one if each of its nodes stands for a connected part of the other, and two
of its nodes are adjacent exactly if some members of their parts are. Paths between nodes are then
paths between parts (`Condenses.linked_iff`), through as many condensations as there are.
-/

namespace CommunityDetection.Graph

variable {α : Type}

/-- Every node of `G` has a part, which is a node of `H`. -/
structure Condenses (G H : Graph α) (part : Nat → Nat) : Prop where
  maps : ∀ v < G.nodeCount, part v < H.nodeCount
  adjacent : ∀ a b, H.Adjacent a b ↔ ∃ u v, G.Adjacent u v ∧ part u = a ∧ part v = b
  linked : ∀ u < G.nodeCount, ∀ v < G.nodeCount, part u = part v →
    G.Linked (fun w => part w = part u) u v

namespace Condenses

variable {G H I : Graph α} {part next : Nat → Nat} {inside : Nat → Prop} {u v : Nat}

theorem refl (G : Graph α) : Condenses G G id where
  maps _ bound := bound
  adjacent a b := by
    constructor
    · exact fun adjacent => ⟨a, b, adjacent, rfl, rfl⟩
    · rintro ⟨_, _, adjacent, rfl, rfl⟩
      exact adjacent
  linked u _ v _ same := by
    cases same
    exact .refl _ _ _

theorem congr (condenses : Condenses G H part) (closed : G.Closed)
    (same : ∀ v < G.nodeCount, part v = next v) : Condenses G H next where
  maps v bound := same v bound ▸ condenses.maps v bound
  adjacent a b := by
    rw [condenses.adjacent]
    constructor
    · rintro ⟨u, v, edge, rfl, rfl⟩
      exact ⟨u, v, edge, (same u edge.lt_left).symm, (same v (edge.lt_right closed)).symm⟩
    · rintro ⟨u, v, edge, rfl, rfl⟩
      exact ⟨u, v, edge, same u edge.lt_left, same v (edge.lt_right closed)⟩
  linked u bound v bounded equal := by
    rw [← same u bound, ← same v bounded] at equal
    have linked := condenses.linked u bound v bounded equal
    clear equal
    induction linked with
    | refl => exact .refl _ _ _
    | tail before step ih =>
      obtain ⟨edge, left, right⟩ := step
      have boundX := edge.lt_left
      have boundY := edge.lt_right closed
      refine (ih boundX).trans (.single edge ?_ ?_)
      · rw [← same _ boundX, left, same u bound]
      · rw [← same _ boundY, right, same u bound]

theorem lift (condenses : Condenses G H part) (closed : G.Closed) (inside : Nat → Prop)
    (bound : u < G.nodeCount)
    (start : inside (part u)) {target : Nat} (linked : H.Linked inside (part u) target) :
    ∀ v < G.nodeCount, part v = target → G.Linked (fun w => inside (part w)) u v := by
  have within : ∀ {a b}, inside (part a) → a < G.nodeCount → b < G.nodeCount → part a = part b →
      G.Linked (fun w => inside (part w)) a b := by
    intro a b atPart boundA boundB same
    refine (condenses.linked a boundA b boundB same).mono fun w equal => ?_
    rw [equal]
    exact atPart
  induction linked with
  | refl => exact fun v bounded same => within start bound bounded same.symm
  | tail before step ih =>
    intro v bounded same
    obtain ⟨adjacent, left, right⟩ := step
    obtain ⟨x, w, edge, rfl, rfl⟩ := (condenses.adjacent _ _).mp adjacent
    exact ((ih x edge.lt_left rfl).trans (.single edge left right)).trans
      (within right (edge.lt_right closed) bounded same.symm)

theorem linked_iff (condenses : Condenses G H part) (closed : G.Closed) (inside : Nat → Prop)
    (bound : u < G.nodeCount) (bounded : v < G.nodeCount) (start : inside (part u)) :
    G.Linked (fun w => inside (part w)) u v ↔ H.Linked inside (part u) (part v) := by
  constructor
  · intro linked
    induction linked with
    | refl => exact .refl _ _ _
    | tail before step ih =>
      obtain ⟨adjacent, left, right⟩ := step
      exact (ih adjacent.lt_left).trans
        (.single ((condenses.adjacent _ _).mpr ⟨_, _, adjacent, rfl, rfl⟩) left right)
  · intro linked
    exact condenses.lift closed inside bound start linked v bounded rfl

theorem trans (first : Condenses G H part) (closed : G.Closed) (second : Condenses H I next) :
    Condenses G I (next ∘ part) where
  maps v bound := second.maps _ (first.maps v bound)
  adjacent a b := by
    rw [second.adjacent]
    constructor
    · rintro ⟨x, y, adjacent, rfl, rfl⟩
      obtain ⟨u, v, edge, rfl, rfl⟩ := (first.adjacent _ _).mp adjacent
      exact ⟨u, v, edge, rfl, rfl⟩
    · rintro ⟨u, v, edge, rfl, rfl⟩
      exact ⟨part u, part v, (first.adjacent _ _).mpr ⟨u, v, edge, rfl, rfl⟩, rfl, rfl⟩
  linked u bound v bounded same :=
    first.lift closed (fun x => next x = next (part u)) bound rfl
      (second.linked _ (first.maps u bound) _ (first.maps v bounded) same) v bounded rfl

end Condenses

end CommunityDetection.Graph
