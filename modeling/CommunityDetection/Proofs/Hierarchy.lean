import CommunityDetection.Hierarchy
import CommunityDetection.Proofs.Cells

/-!
# Hierarchies follow their chain

Where every root node leads to a node of the current graph, a hierarchy records the value of that
node for it (`record_of_leads`, `descend_of_leads`). Else it fails with the first root node that is
lost (`translate_of_loses`), and nothing else can happen.
-/

namespace CommunityDetection

section Except

variable {ε β γ : Type}

theorem mapM_except_ok {items : List β} {f : β → Except ε γ} {g : β → γ}
    (ok : ∀ item ∈ items, f item = .ok (g item)) : items.mapM f = .ok (items.map g) := by
  induction items with
  | nil => rfl
  | cons item items ih =>
    rw [List.mapM_cons, ok item List.mem_cons_self,
      ih fun other member => ok other (List.mem_cons_of_mem _ member)]
    rfl

theorem mapM_except_error {before after : List β} {item : β} {f : β → Except ε γ} {g : β → γ}
    {failure : ε} (ok : ∀ item ∈ before, f item = .ok (g item)) (fails : f item = .error failure) :
    (before ++ item :: after).mapM f = .error failure := by
  rw [List.mapM_append, mapM_except_ok ok, List.mapM_cons, fails]
  rfl

end Except

namespace Hierarchy

variable {α : Type} {hierarchy next : Hierarchy} {G : Graph α} {value : Nat → Nat} {part : Nat → Nat}

/-- Every root node leads to its part, a node of the current graph. -/
def Leads (hierarchy : Hierarchy) (G : Graph α) (part : Nat → Nat) : Prop :=
  ∀ v < hierarchy.chain.size, G.toMapped? (Assignment.of hierarchy.chain v) = some (part v)

structure Loses (hierarchy : Hierarchy) (G : Graph α) (root : Nat) : Prop where
  bound : root < hierarchy.chain.size
  lost : G.toMapped? (Assignment.of hierarchy.chain root) = none
  first : ∀ v < root, G.toMapped? (Assignment.of hierarchy.chain v) ≠ none

theorem leads_or_loses (hierarchy : Hierarchy) (G : Graph α) :
    (hierarchy.Leads G fun v => (G.toMapped? (Assignment.of hierarchy.chain v)).getD 0) ∨
      ∃ root, hierarchy.Loses G root := by
  by_cases all : ∃ v < hierarchy.chain.size, G.toMapped? (Assignment.of hierarchy.chain v) = none
  · have ⟨bound, lost⟩ := Nat.find_spec all
    refine .inr ⟨Nat.find all, bound, lost, fun v earlier missing => ?_⟩
    exact Nat.find_min all earlier ⟨earlier.trans bound, missing⟩
  · refine .inl fun v bound => ?_
    cases found : G.toMapped? (Assignment.of hierarchy.chain v) with
    | none => exact absurd ⟨v, bound, found⟩ all
    | some node => simp only [found, Option.getD_some]

def lookup (hierarchy : Hierarchy) (G : Graph α) (value : Nat → Nat) (root : Nat) :
    Except (Error α) Nat :=
  match G.toMapped? (Assignment.of hierarchy.chain root) with
  | some node => .ok (value node)
  | none => .error (.inconsistent (.rootLost root (Assignment.of hierarchy.chain root)))

theorem translate_eq (hierarchy : Hierarchy) (G : Graph α) (value : Nat → Nat) :
    hierarchy.translate G value =
      List.toArray <$> (List.range hierarchy.chain.size).mapM (hierarchy.lookup G value) := by
  rw [translate, Assignment.zipIdx_toList, List.mapM_map]
  rfl

theorem translate_of_leads (leads : hierarchy.Leads G part) (value : Nat → Nat) :
    hierarchy.translate G value =
      .ok ((List.range hierarchy.chain.size).map fun v => value (part v)).toArray := by
  have ok : ∀ v ∈ List.range hierarchy.chain.size,
      hierarchy.lookup G value v = .ok (value (part v)) := by
    intro v inRange
    simp only [lookup, leads v (List.mem_range.mp inRange)]
  rw [translate_eq, mapM_except_ok ok]
  rfl

theorem translate_of_loses {root : Nat} (loses : hierarchy.Loses G root) (value : Nat → Nat) :
    hierarchy.translate G value =
      .error (.inconsistent (.rootLost root (Assignment.of hierarchy.chain root))) := by
  have split : List.range hierarchy.chain.size =
      List.range root ++ root :: (List.range (hierarchy.chain.size - root - 1)).map (root + 1 + ·) := by
    have total : hierarchy.chain.size = root + 1 + (hierarchy.chain.size - root - 1) := by
      have := loses.bound
      omega
    conv_lhs => rw [total, List.range_add, List.range_succ]
    simp
  have ok : ∀ v ∈ List.range root, hierarchy.lookup G value v =
      .ok (value ((G.toMapped? (Assignment.of hierarchy.chain v)).getD 0)) := by
    intro v inRange
    cases found : G.toMapped? (Assignment.of hierarchy.chain v) with
    | none => exact absurd found (loses.first v (List.mem_range.mp inRange))
    | some node => simp only [lookup, found, Option.getD_some]
  have fails : hierarchy.lookup G value root =
      .error (.inconsistent (.rootLost root (Assignment.of hierarchy.chain root))) := by
    simp only [lookup, loses.lost]
  rw [translate_eq, split, mapM_except_error ok fails]
  rfl

theorem of_map_range {n : Nat} (f : Nat → Nat) {v : Nat} (bound : v < n) :
    Assignment.of ((List.range n).map f).toArray v = f v := by
  simp [Assignment.of, bound]

def levelOf (hierarchy : Hierarchy) (part : Nat → Nat) (assignment : Assignment) (seeding : Seeding) :
    Array Nat :=
  ((List.range hierarchy.chain.size).map fun v => seeding.outputId (assignment.of (part v))).toArray

def push (hierarchy : Hierarchy) (level : Array Nat) : Hierarchy :=
  { hierarchy with levels := if hierarchy.keepAll then hierarchy.levels.push level else #[level] }

theorem record_of_leads (leads : hierarchy.Leads G part) (assignment : Assignment) (seeding : Seeding) :
    hierarchy.record G assignment seeding =
      .ok (hierarchy.push (hierarchy.levelOf part assignment seeding)) := by
  rw [record, translate_of_leads leads]
  rfl

theorem descend_of_leads (leads : hierarchy.Leads G part) (classes : Assignment) :
    hierarchy.descend G classes =
      .ok { hierarchy with
            chain := ((List.range hierarchy.chain.size).map fun v => classes.of (part v)).toArray } := by
  rw [descend, translate_of_leads leads]
  rfl

theorem leads_of_record {assignment : Assignment} {seeding : Seeding}
    (ok : hierarchy.record G assignment seeding = .ok next) :
    hierarchy.Leads G fun v => (G.toMapped? (Assignment.of hierarchy.chain v)).getD 0 := by
  rcases leads_or_loses hierarchy G with leads | ⟨root, loses⟩
  · exact leads
  · rw [record, translate_of_loses loses] at ok
    cases ok

theorem translate_error {failure : Error α} (failed : hierarchy.translate G value = .error failure) :
    ∃ root id, failure = .inconsistent (.rootLost root id) := by
  rcases leads_or_loses hierarchy G with leads | ⟨root, loses⟩
  · rw [translate_of_leads leads] at failed
    cases failed
  · rw [translate_of_loses loses] at failed
    cases failed
    exact ⟨_, _, rfl⟩

theorem record_error {assignment : Assignment} {seeding : Seeding} {failure : Error α}
    (failed : hierarchy.record G assignment seeding = .error failure) :
    ∃ root id, failure = .inconsistent (.rootLost root id) := by
  unfold record at failed
  cases looked : hierarchy.translate G fun node => seeding.outputId (assignment.of node) with
  | ok level =>
    rw [looked] at failed
    cases failed
  | error found =>
    rw [looked] at failed
    cases failed
    exact translate_error looked

theorem descend_error {classes : Assignment} {failure : Error α}
    (failed : hierarchy.descend G classes = .error failure) :
    ∃ root id, failure = .inconsistent (.rootLost root id) := by
  unfold descend at failed
  cases looked : hierarchy.translate G classes.of with
  | ok chain =>
    rw [looked] at failed
    cases failed
  | error found =>
    rw [looked] at failed
    cases failed
    exact translate_error looked

@[simp] theorem current?_push (hierarchy : Hierarchy) (level : Array Nat) :
    (hierarchy.push level).current? = some level := by
  unfold push current?
  split <;> simp

end Hierarchy

end CommunityDetection
