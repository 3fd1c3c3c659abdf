import CommunityDetection.Proofs.Graph.Weight

/-!
# Paths inside a set of nodes

`Linked inside u v`: some path of relationships leads from `u` to `v` and all its nodes satisfy
`inside`.
-/

namespace CommunityDetection.Graph

variable {α : Type} {G : Graph α} {inside outside : Nat → Prop} {u v w : Nat}

/-- A path of relationships through nodes with a property leads from one node to another. -/
def Linked (G : Graph α) (inside : Nat → Prop) : Nat → Nat → Prop :=
  Relation.ReflTransGen fun a b => G.Adjacent a b ∧ inside a ∧ inside b

theorem Linked.refl (G : Graph α) (inside : Nat → Prop) (node : Nat) : G.Linked inside node node :=
  Relation.ReflTransGen.refl

theorem Linked.trans (left : G.Linked inside u v) (right : G.Linked inside v w) :
    G.Linked inside u w := Relation.ReflTransGen.trans left right

theorem Linked.single (adjacent : G.Adjacent u v) (atLeft : inside u) (atRight : inside v) :
    G.Linked inside u v := Relation.ReflTransGen.single ⟨adjacent, atLeft, atRight⟩

theorem Linked.mono (linked : G.Linked inside u v) (weaker : ∀ node, inside node → outside node) :
    G.Linked outside u v := by
  induction linked with
  | refl => exact .refl G outside u
  | tail _ step ih => exact ih.trans (.single step.1 (weaker _ step.2.1) (weaker _ step.2.2))

theorem Linked.congr (closed : G.Closed)
    (same : ∀ node < G.nodeCount, (inside node ↔ outside node)) :
    G.Linked inside u v ↔ G.Linked outside u v := by
  have forth {inside outside : Nat → Prop} (weaker : ∀ node < G.nodeCount, inside node → outside node)
      (linked : G.Linked inside u v) : G.Linked outside u v := by
    induction linked with
    | refl => exact .refl G outside u
    | tail _ step ih =>
      obtain ⟨adjacent, left, right⟩ := step
      exact ih.trans (.single adjacent (weaker _ adjacent.lt_left left)
        (weaker _ (adjacent.lt_right closed) right))
  exact ⟨forth fun node bound => (same node bound).mp, forth fun node bound => (same node bound).mpr⟩

theorem Linked.symm (comm : ∀ {a b}, G.Adjacent a b → G.Adjacent b a) (linked : G.Linked inside u v) :
    G.Linked inside v u := by
  induction linked with
  | refl => exact .refl G inside u
  | tail _ step ih => exact (Linked.single (comm step.1) step.2.2 step.2.1).trans ih

end CommunityDetection.Graph
