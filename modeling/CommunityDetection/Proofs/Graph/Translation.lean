import CommunityDetection.Graph.Build
import CommunityDetection.Proofs.Cells

/-!
# Translated node ids

In a faithful graph original ids are distinct and each leads back to its node. Graphs that keep
their ids are faithful, and so are those whose original ids are listed without repetition.
-/

namespace CommunityDetection

namespace Graph

variable {α : Type} {G : Graph α} {id node other : Nat}

/-- An id has a node exactly if it is the original id of that node. -/
def Faithful (G : Graph α) : Prop :=
  ∀ id node, G.toMapped? id = some node ↔ node < G.nodeCount ∧ G.toOriginal node = id

def Located (G : Graph α) : Prop := ∀ id node, G.toMapped? id = some node → node < G.nodeCount

theorem Faithful.located (faithful : G.Faithful) : G.Located :=
  fun id node found => ((faithful id node).mp found).1

theorem faithful_of_untranslated (untranslated : G.translation = none) : G.Faithful := by
  intro id node
  simp only [toMapped?, toOriginal, untranslated]
  constructor
  · intro found
    split at found
    · rename_i bound
      cases found
      exact ⟨bound, rfl⟩
    · cases found
  · rintro ⟨bound, rfl⟩
    exact if_pos bound

def KeepsIds (G : Graph α) : Prop := ∀ node < G.nodeCount, G.toMapped? node = some node

theorem keepsIds_of_untranslated (untranslated : G.translation = none) : G.KeepsIds := by
  intro node bound
  simp [toMapped?, untranslated, bound]

theorem Faithful.toMapped?_toOriginal (faithful : G.Faithful) (bound : node < G.nodeCount) :
    G.toMapped? (G.toOriginal node) = some node := (faithful _ _).mpr ⟨bound, rfl⟩

theorem Faithful.toOriginal_injective (faithful : G.Faithful) (bound : node < G.nodeCount)
    (bounded : other < G.nodeCount) (same : G.toOriginal node = G.toOriginal other) : node = other := by
  have left := faithful.toMapped?_toOriginal bound
  rw [same, faithful.toMapped?_toOriginal bounded] at left
  cases left
  rfl

theorem Faithful.exists_id (faithful : G.Faithful)
    (mapped : ∀ id < G.nodeCount, ∃ node, G.toMapped? id = some node) (bound : node < G.nodeCount) :
    ∃ id < G.nodeCount, G.toMapped? id = some node := by
  choose! lead found using mapped
  let leads (id : Fin G.nodeCount) : Fin G.nodeCount :=
    ⟨lead id, ((faithful _ _).mp (found id id.isLt)).1⟩
  have injective : Function.Injective leads := by
    intro left right same
    have original (id : Fin G.nodeCount) : G.toOriginal (leads id) = id :=
      ((faithful _ _).mp (found id id.isLt)).2
    apply Fin.ext
    rw [← original left, same, original right]
  obtain ⟨id, equal⟩ := Finite.injective_iff_surjective.mp injective ⟨node, bound⟩
  refine ⟨id, id.isLt, ?_⟩
  rw [found id id.isLt]
  exact congrArg (fun node => some node.val) equal

end Graph

theorem getD_foldl_setIfInBounds {β : Type} {pairs : List (Nat × β)}
    (nodup : (pairs.map Prod.fst).Nodup) {table : Array (Option β)}
    (bounded : ∀ pair ∈ pairs, pair.1 < table.size)
    (fresh : ∀ pair ∈ pairs, table.getD pair.1 none = none) (key : Nat) (value : β) :
    (pairs.foldl (fun table pair => table.setIfInBounds pair.1 (some pair.2)) table).getD key none =
      some value ↔ (key, value) ∈ pairs ∨ table.getD key none = some value := by
  induction pairs generalizing table with
  | nil => simp
  | cons pair pairs ih =>
    have ⟨unlisted, rest⟩ := List.nodup_cons.mp nodup
    have here := bounded pair List.mem_cons_self
    have written (other : Nat) : (table.setIfInBounds pair.1 (some pair.2)).getD other none =
        if pair.1 = other then some pair.2 else table.getD other none := by
      rw [getD_setIfInBounds]
      simp only [here, and_true]
    rw [List.foldl_cons, ih rest ?_ ?_, written, List.mem_cons]
    · by_cases same : pair.1 = key
      · subst same
        have absent : (pair.1, value) ∉ pairs := fun member =>
          unlisted (List.mem_map.mpr ⟨_, member, rfl⟩)
        have empty := fresh pair List.mem_cons_self
        rw [if_pos rfl, empty]
        constructor
        · rintro (member | equal)
          · exact absurd member absent
          · cases equal
            exact .inl (.inl rfl)
        · rintro ((equal | member) | none)
          · exact .inr (by rw [← equal])
          · exact absurd member absent
          · cases none
      · have other : (key, value) ≠ pair := fun equal => same (by rw [← equal])
        simp [same, other]
    · intro other member
      rw [Array.size_setIfInBounds]
      exact bounded other (List.mem_cons_of_mem _ member)
    · intro other member
      have ne : pair.1 ≠ other.1 := by
        intro same
        exact unlisted (same ▸ List.mem_map_of_mem member)
      rw [written, if_neg ne]
      exact fresh other (List.mem_cons_of_mem _ member)

namespace Graph

theorem getD_mapped_translationOf {original : Array Nat} {bound : Nat} (nodup : original.toList.Nodup)
    (bounded : ∀ id ∈ original.toList, id < bound) (id node : Nat) :
    (translationOf original bound).mapped.getD id none = some node ↔ original[node]? = some id := by
  have keys : (original.toList.zipIdx.map Prod.fst) = original.toList := by simp
  rw [translationOf, getD_foldl_setIfInBounds (by rwa [keys]) ?_ (fun _ _ => getD_replicate _ _ _),
    getD_replicate]
  · simp [List.mem_zipIdx_iff_getElem?]
  · intro pair member
    have listed : pair.1 ∈ original.toList := by
      rw [← keys]
      exact List.mem_map_of_mem member
    simpa using bounded _ listed

theorem faithful_ofRows {α : Type} (orientation : Orientation) {rows : Array (Row α)}
    {original : Array Nat} {bound : Nat} (size : original.size = rows.size)
    (nodup : original.toList.Nodup) (bounded : ∀ id ∈ original.toList, id < bound) :
    (ofRows orientation rows original bound).Faithful := by
  intro id node
  simp only [toMapped?, ofRows, toOriginal, nodeCount]
  rw [getD_mapped_translationOf nodup bounded, Array.getElem?_eq_some_iff, ← size]
  simp only [translationOf]
  constructor
  · rintro ⟨inside, equal⟩
    exact ⟨inside, by simpa [inside] using equal⟩
  · rintro ⟨inside, equal⟩
    exact ⟨inside, by simpa [inside] using equal⟩

end Graph

end CommunityDetection
