import CommunityDetection.Proofs.Search.Likeness

/-!
# Searches under a view of their states

A view of the states of a search commutes with it (`Commutes`) if it leaves rows, communities and volumes
as they are and recording and the way down go through it. Then the search from the view of a state is the
view of the search (`Commutes.iterate_matches`): it writes the same and ends in the view of the same end.
-/

namespace CommunityDetection.Search

open Session

variable {σ α : Type} {view : State α → State α}

def Ending.through (view : State α → State α) (ending : Ending α) : Ending α :=
  { ending with state := view ending.state }

def Outcome.through (view : State α → State α) : Outcome α → Outcome α
  | .ended ending => .ended (ending.through view)
  | .completed state => .completed (view state)

variable [Scalar α] {plan : Plan σ α}

structure Commutes (plan : Plan σ α) (view : State α → State α) : Prop where
  alike (state : State α) : Alike state (view state)
  moved (state : State α) (reached : LocalMove.State α) :
    view { state with level := state.level.moved reached } =
      { view state with level := (view state).level.moved reached }
  complete (state : State α) (modularity : α) :
    view (state.complete modularity) = (view state).complete modularity
  record (state : State α) : (Session.ofExcept state.record).Matches
    (fun first second => second = view first) (Session.ofExcept (view state).record)
  descend (state : State α) : (descend plan state).Matches
    (fun first second => second = view first) (descend plan (view state))

namespace Commutes

theorem survey_matches (commutes : Commutes plan view) (state : State α) :
    (survey plan state).Matches (fun first second => second = (view first.1, first.2))
      (survey plan (view state)) := by
  refine matches_bind_same fun _ _ => ?_
  refine (moveNodes_matches (commutes.alike state).level (commutes.alike state).iteration).bind ?_
  rintro _ _ ⟨reached, count, rfl, rfl⟩ - -
  dsimp only
  rw [← commutes.moved, (commutes.alike _).measureNeeded_eq]
  exact matches_bind_same fun _ _ => matches_pure rfl

theorem descendFurther_matches (commutes : Commutes plan view) (further : Bool) (state : State α) :
    (descendFurther plan further state).Matches (fun first second => second = view first)
      (descendFurther plan further (view state)) := by
  cases further with
  | false => exact matches_pure rfl
  | true => exact commutes.descend state

theorem weigh_matches (commutes : Commutes plan view) (further : Bool) (state : State α) (count : Nat)
    (measured : Option α) :
    (weigh plan further (state, count, measured)).Matches
      (fun first second => second = first.through view)
      (weigh plan further (view state, count, measured)) := by
  have alike := commutes.alike state
  unfold weigh
  dsimp only
  by_cases settled : state.Settled count
  · rw [if_pos settled, if_pos (alike.settled_iff.mp settled)]
    exact matches_bind_same fun _ _ => matches_pure rfl
  · rw [if_neg settled, if_neg (alike.settled_iff.not.mp settled), ← alike.modularities, ← alike.iteration]
    cases Progress.of plan.config.tolerance state.modularities.back? (measured.getD 0) with
    | decreased =>
      exact matches_bind_same fun _ _ => matches_bind_same fun _ _ => matches_pure rfl
    | slight =>
      refine (commutes.record state).bind ?_
      rintro recorded _ rfl - -
      rw [← commutes.complete]
      exact matches_bind_same fun _ _ => matches_pure rfl
    | substantial =>
      refine (commutes.record state).bind ?_
      rintro recorded _ rfl - -
      refine (commutes.descendFurther_matches further recorded).bind ?_
      rintro next _ rfl - -
      rw [← commutes.complete]
      exact matches_bind_same fun _ _ => matches_pure rfl

theorem iterate_matches (commutes : Commutes plan view) (limit : Nat) (state : State α) :
    (iterate plan limit state).Matches (fun first second => second = first.through view)
      (iterate plan limit (view state)) := by
  induction limit generalizing state with
  | zero => exact matches_pure rfl
  | succ limit ih =>
    rw [iterate_succ, iterate_succ]
    refine (commutes.survey_matches state).bind ?_
    rintro ⟨moved, count, measured⟩ _ rfl - -
    unfold conclude
    rw [bind_assoc, bind_assoc, ← (commutes.alike moved).summary_eq]
    refine matches_bind_same fun _ _ => ?_
    refine (commutes.weigh_matches (limit != 0) moved count measured).bind ?_
    rintro outcome _ rfl - -
    cases outcome with
    | ended ending => exact matches_pure rfl
    | completed next => exact ih next

end Commutes

end CommunityDetection.Search
