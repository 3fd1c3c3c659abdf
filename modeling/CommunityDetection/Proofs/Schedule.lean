import CommunityDetection.Schedule
import Mathlib.Data.List.Perm.Basic

/-!
# Orders of turns

Whatever the turns, the items of some queues are taken once each (`interleave_perm`), and those of a
single queue in their order.
-/

namespace CommunityDetection

def Turn.Whole (turn : Turn) : Prop := turn = .visit turn.worker

namespace Schedule

/-- No visit begins before the one before it has ended. -/
def Sequential (schedule : Schedule) : Prop :=
  ∀ iteration pass, ∀ turn ∈ schedule.turns iteration pass, turn.Whole

variable {β : Type}

theorem interleave_none {turn : Nat} {turns : List Nat} {queues : List (List β)}
    (none : ∀ item queue, queues[turn]? ≠ some (item :: queue)) :
    interleave (turn :: turns) queues = interleave turns queues := by
  rw [interleave]
  split
  · rename_i item queue found
    exact absurd found (none item queue)
  · rfl

theorem interleave_some {turn : Nat} {turns : List Nat} {queues : List (List β)} {item : β} {queue : List β}
    (found : queues[turn]? = some (item :: queue)) :
    interleave (turn :: turns) queues = item :: interleave turns (queues.set turn queue) := by
  rw [interleave, found]

theorem interleave_perm (turns : List Nat) (queues : List (List β)) :
    (interleave turns queues).Perm queues.flatten := by
  induction turns generalizing queues with
  | nil => exact .refl _
  | cons turn turns ih =>
    cases found : queues[turn]? with
    | none =>
      rw [interleave_none (by simp [found])]
      exact ih queues
    | some queue =>
      cases queue with
      | nil =>
        rw [interleave_none (by simp [found])]
        exact ih queues
      | cons item queue =>
        obtain ⟨bound, at_⟩ := List.getElem?_eq_some_iff.mp found
        have split : queues = queues.take turn ++ (item :: queue) :: queues.drop (turn + 1) := by
          rw [← at_, ← List.drop_eq_getElem_cons bound, List.take_append_drop]
        rw [interleave_some found, List.set_eq_take_append_cons_drop, if_pos bound]
        refine ((ih _).cons item).trans ?_
        conv_rhs => rw [split]
        simp only [List.flatten_append, List.flatten_cons, List.cons_append]
        exact List.perm_middle.symm

theorem interleave_singleton (turns : List Nat) (queue : List β) : interleave turns [queue] = queue := by
  induction turns generalizing queue with
  | nil => simp [interleave]
  | cons turn turns ih =>
    cases turn with
    | zero =>
      cases queue with
      | nil => exact (interleave_none (by simp)).trans (ih [])
      | cons item queue => rw [interleave_some (by rfl), List.set_cons_zero, ih]
    | succ turn => exact (interleave_none (by simp)).trans (ih queue)

theorem interleave_alone (turns : List Nat) {queues : List (List β)} (alone : queues.length ≤ 1) :
    interleave turns queues = queues.flatten := by
  match queues, alone with
  | [], _ => exact List.perm_nil.mp (interleave_perm turns [])
  | [queue], _ => rw [interleave_singleton, List.flatten_singleton]

end Schedule

end CommunityDetection
