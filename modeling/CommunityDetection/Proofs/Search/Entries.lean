import CommunityDetection.Proofs.Progress.Writing
import CommunityDetection.Proofs.Search.Run

/-!
# What iterations write

An iteration writes one summary, between its survey and what it concludes from it. Everything else in
the journal is plain.
-/

namespace CommunityDetection

namespace Search

variable {σ α : Type} [Scalar α] {plan : Plan σ α} {further : Bool} {left : Nat}
  {state moved : State α}

theorem moveNodes_writes : (moveNodes plan state).Writes Entry.Plain := by
  refine Session.Writes.stage ?_ (Entry.plain_begins _) (Entry.plain_ends _)
  refine (Session.writes_ofExcept _).bind fun start _ => ?_
  refine (Session.writes_checkpoint _).bind fun _ _ => ?_
  refine (Session.writes_forM fun pass => Session.writes_note (Entry.plain_note _)).bind fun _ _ => ?_
  cases (LocalMove.run (state.moveSetting plan) start).failure? with
  | some failure => exact Session.writes_throw failure
  | none => exact Session.writes_pure _

theorem measure_writes : (measure plan state).Writes Entry.Plain := by
  refine Session.Writes.stage ?_ (Entry.plain_begins _) (Entry.plain_ends _)
  exact (Session.writes_checkpoint _).bind fun _ _ => Session.writes_pure _

theorem survey_writes : (survey plan state).Writes Entry.Plain := by
  refine (Session.writes_report (Entry.plain_begins _)).bind fun _ _ => ?_
  refine moveNodes_writes.bind fun found _ => ?_
  refine Session.Writes.bind ?_ fun _ _ => Session.writes_pure _
  unfold measureNeeded
  split
  · exact measure_writes.map _
  · exact Session.writes_pure _

theorem descendFurther_writes : (descendFurther plan further state).Writes Entry.Plain := by
  unfold descendFurther
  split
  · refine Session.Writes.bind ?_ fun result _ => ?_
    · refine Session.Writes.stage ?_ (Entry.plain_begins _) (Entry.plain_ends _)
      refine (Session.writes_checkpoint _).bind fun _ _ => ?_
      exact (Session.writes_ofExcept _).bind fun _ _ => Session.writes_pure _
    · refine Session.Writes.stage ?_ (Entry.plain_begins _) (Entry.plain_ends _)
      refine (Session.writes_checkpoint _).bind fun _ _ => ?_
      exact (Session.writes_note (Entry.plain_note _)).bind fun _ _ => Session.writes_pure _
  · exact Session.writes_pure _

theorem proceed_writes {modularity : α} :
    (proceed plan further modularity state).Writes Entry.Plain :=
  descendFurther_writes.bind fun _ _ =>
    (Session.writes_report (Entry.plain_ends _)).bind fun _ _ => Session.writes_pure _

theorem weigh_writes {found : State α × Nat × Option α} :
    (weigh plan further found).Writes Entry.Plain := by
  have ends : (Session.report (.ends .iteration) : Session α Unit).Writes Entry.Plain :=
    Session.writes_report (Entry.plain_ends _)
  obtain ⟨moved, count, measured⟩ := found
  unfold weigh
  dsimp only
  split
  · exact ends.bind fun _ _ => Session.writes_pure _
  · split
    · refine (Session.writes_note (Entry.plain_note _)).bind fun _ _ => ?_
      exact ends.bind fun _ _ => Session.writes_pure _
    · refine (Session.writes_ofExcept _).bind fun _ _ => ?_
      exact ends.bind fun _ _ => Session.writes_pure _
    · exact (Session.writes_ofExcept _).bind fun recorded _ => proceed_writes

theorem conclude_writes {found : State α × Nat × Option α} :
    (conclude plan further found).Writes fun entry => entry = .event (summary found) ∨ entry.Plain :=
  (Session.writes_report (.inl rfl)).bind fun _ _ => weigh_writes.mono fun _ plain => .inr plain

theorem iterate_keeps : (iterate plan left state).Writes fun _ => True := by
  induction left generalizing state with
  | zero => exact Session.writes_pure _
  | succ left ih =>
    unfold iterate
    rw [step_eq]
    refine Session.Writes.bind ?_ fun outcome _ => ?_
    · refine (survey_writes.mono fun _ _ => trivial).bind fun _ _ => ?_
      exact conclude_writes.mono fun _ _ => trivial
    · cases outcome with
      | ended ending => exact Session.writes_pure _
      | completed next => exact ih

end Search

end CommunityDetection
