import CommunityDetection.LocalMove.Worker
import CommunityDetection.Proofs.Graph.Weight

/-!
# The accesses of a visit

Made while nothing else happens, the accesses of a visit come to the visit as a whole (`run_visiting`). The
loops of a visit are folds then, one lemma for each part of it.
-/

namespace CommunityDetection.LocalMove

variable {α : Type} [Scalar α]

namespace Program

variable {β γ : Type} {pass : Pass α}

/-! ## Programs without interruption -/

theorem run_bind (program : Program α β) (after : β → Program α γ) (pass : Pass α) :
    (program >>= after).run pass = (after (program.run pass).1).run (program.run pass).2 := by
  induction program generalizing pass with
  | done result => rfl
  | next access answered ih => exact ih (access.run pass).1 (access.run pass).2

theorem run_next {ρ : Type} (access : Access α ρ) (answered : ρ → Program α β) (pass : Pass α) :
    (next access answered).run pass = (answered (access.run pass).1).run (access.run pass).2 := rfl

theorem run_ask {ρ : Type} (access : Access α ρ) (pass : Pass α) :
    (ask access).run pass = access.run pass := rfl

theorem run_pure (result : β) (pass : Pass α) : (pure result : Program α β).run pass = (result, pass) :=
  rfl

/-- A loop whose steps change nothing is a fold of their results. -/
theorem run_foldlM {step : β → γ → Program α β} {result : β → γ → β}
    (steps : ∀ before item, (step before item).run pass = (result before item, pass))
    (items : List γ) (first : β) :
    (items.foldlM step first).run pass = (items.foldl result first, pass) := by
  induction items generalizing first with
  | nil => rfl
  | cons item items ih => rw [List.foldlM_cons, run_bind, steps, ih, List.foldl_cons]

end Program

open Program (run_bind run_ask run_pure run_foldlM ask)

variable {setting : Setting α} {node community : Nat} {pass : Pass α}

theorem run_weigh (others : Row α) (pass : Pass α) :
    (weigh others).run pass =
      (Tally.ofPairs (others.map fun entry => (pass.state.assignment.of entry.1, entry.2)), pass) := by
  rw [weigh, run_foldlM fun _ _ => rfl, Tally.ofPairs, List.foldl_map]

theorem run_bars (home candidate : Nat) (pass : Pass α) :
    (bars home (pass.state.sizeOf home == 1) candidate).run pass =
      (barred pass.state home candidate, pass) := by
  unfold bars barred
  by_cases alone : (pass.state.sizeOf home == 1 && decide (home < candidate)) = true
  · rw [if_pos alone, alone, Bool.true_and]
    rfl
  · rw [if_neg alone, Bool.eq_false_of_not_eq_true alone, Bool.false_and]
    rfl

theorem run_compare (gamma volume : α) (home : Nat) (best candidate : Nat × α) (pass : Pass α) :
    (compare gamma volume home (pass.state.sizeOf home == 1) best candidate).run pass =
      (if candidate.1 = home ∨ barred pass.state home candidate.1 then best
        else
          let value := gain gamma volume candidate.2 (pass.state.communityVolumes.read candidate.1)
          if best.2 < value then (candidate.1, value) else best, pass) := by
  unfold compare
  by_cases same : candidate.1 = home
  · rw [if_pos same, if_pos (.inl same), run_pure]
  · rw [if_neg same, run_bind, run_bars]
    by_cases barring : barred pass.state home candidate.1 = true
    · rw [if_pos barring, if_pos (.inr barring), run_pure]
    · rw [if_neg barring, if_neg (by simp [same, barring])]
      rfl

theorem run_rouse (community node : Nat) (pass : Pass α) :
    (rouse community node).run pass = ((), { pass with
      awake := if pass.state.assignment.of node ≠ community then pass.awake.setIfInBounds node true
        else pass.awake }) := by
  rw [rouse, run_bind, run_ask, Access.run]
  dsimp only
  split
  · rfl
  · rfl

theorem run_forM_rouse (others : Row α) (community : Nat) (pass : Pass α) :
    (forM others fun entry => rouse community entry.1 : Program α Unit).run pass =
      ((), { pass with
        awake := others.foldl (fun awake entry =>
          if pass.state.assignment.of entry.1 ≠ community then awake.setIfInBounds entry.1 true
          else awake) pass.awake }) := by
  induction others generalizing pass with
  | nil => rfl
  | cons entry others ih => rw [List.forM_cons, run_bind, run_rouse, ih, List.foldl_cons]

theorem run_transfer (node : Nat) (volume : α) (community : Nat) (pass : Pass α) :
    (transfer node volume (pass.state.assignment.of node) community).run pass =
      ((), { pass with state := pass.state.move node volume community, moves := pass.moves + 1 }) := rfl

/-- What is left of a visit once it is decided that the node moves. -/
def moving (setting : Setting α) (node home community : Nat) : Program α Unit := do
  transfer node (setting.nodeVolumes.read node) home community
  forM (others setting.graph node) fun entry => rouse community entry.1

theorem run_moving (setting : Setting α) (node community : Nat) (pass : Pass α) :
    (moving setting node (pass.state.assignment.of node) community).run pass =
      let state := pass.state.move node (setting.nodeVolumes.read node) community
      ((), { state
             moves := pass.moves + 1
             awake := wake setting.graph state.assignment node community pass.awake }) := by
  rw [moving, run_bind, run_transfer, run_forM_rouse, others, List.foldl_filter]
  simp only [wake, bne_iff_ne, ne_eq, ite_and]

theorem run_visiting {active : Array Bool} (isActive : active.getD node false = true) :
    (visiting setting node).run pass = ((), pass.visit setting active node) := by
  have bests : (visiting setting node).run pass =
      (if (best setting pass.state node).1 ≠ pass.state.assignment.of node then
        moving setting node (pass.state.assignment.of node) (best setting pass.state node).1
      else pure () : Program α Unit).run pass := by
    unfold visiting
    simp only [run_bind, run_ask, Access.run, run_weigh]
    rw [run_foldlM fun best candidate => run_compare _ _ _ best candidate pass]
    rfl
  rw [bests, Pass.visit, if_pos isActive]
  by_cases stays : (best setting pass.state node).1 = pass.state.assignment.of node
  · rw [if_neg (not_not.mpr stays), target?, if_pos stays, run_pure]
  · rw [if_pos stays, target?, if_neg stays, run_moving]

end CommunityDetection.LocalMove
