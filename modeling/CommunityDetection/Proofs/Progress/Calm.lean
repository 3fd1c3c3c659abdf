import CommunityDetection.Proofs.Progress.Session

/-!
# Searches that nobody stops

Only the watch raises the signal, so a session leaves the signal as it is if the watch never raises it
(`Calm`), and no checkpoint stops it. What such a session does return (`Returns`) follows part by part.
-/

namespace CommunityDetection.Session

variable {α β γ : Type} {body : Session α β} {next : β → Session α γ} {watch : Watch α}
  {journal : Journal α}

def Calm (body : Session α β) : Prop :=
  ∀ watch journal, (∀ events, watch events = false) → journal.raised = false →
    (body watch journal).2.raised = false

theorem Calm.bind (first : Calm body) (rest : ∀ value, Calm (next value)) : Calm (body >>= next) := by
  intro watch journal quiet unraised
  have before := first watch journal quiet unraised
  rw [bind_apply]
  cases ran : body watch journal with
  | mk outcome between =>
    rw [ran] at before
    cases outcome with
    | error failure => exact before
    | ok value => exact rest value watch between quiet before

theorem calm_pure (value : β) : Calm (pure value : Session α β) := fun _ _ _ unraised => unraised

theorem raised_report (quiet : ∀ events, watch events = false) (unraised : journal.raised = false)
    (event : Event α) : (journal.report watch event).raised = false := by
  simp [Journal.report, unraised, quiet]

theorem calm_report (event : Event α) : Calm (report event) :=
  fun _ _ quiet unraised => raised_report quiet unraised event

theorem Calm.stage (calm : Calm body) (name : Stage) : Calm (stage name body) :=
  (calm_report _).bind fun _ => calm.bind fun _ => (calm_report _).bind fun _ => calm_pure _

theorem checkpoint_ok_or (quiet : (∀ events, watch events = false) → journal.raised = false)
    (items : Nat) :
    checkpoint items watch journal = (.ok (), journal) ∨
      checkpoint items watch journal = (.error .cancelled, journal) ∧ ∃ events, watch events = true := by
  rw [checkpoint_apply]
  unfold CommunityDetection.checkpoint
  by_cases stops : journal.raised = true ∧ items ≠ 0
  · rw [if_pos stops]
    refine .inr ⟨rfl, Classical.byContradiction fun silent => ?_⟩
    have unraised := quiet fun events => eq_false_of_ne_true fun loud => silent ⟨events, loud⟩
    rw [unraised] at stops
    exact nomatch stops.1
  · rw [if_neg stops]
    exact .inl rfl

/-! ## Values -/

def Returns (body : Session α β) (value : β) : Prop :=
  ∀ watch journal, (∀ events, watch events = false) → journal.raised = false →
    ∃ rest, body watch journal = (.ok value, rest) ∧ rest.raised = false

variable {value : β} {result : γ}

theorem Returns.bind (first : Returns body value) (rest : Returns (next value) result) :
    Returns (body >>= next) result := by
  intro watch journal quiet unraised
  obtain ⟨between, ran, calm⟩ := first watch journal quiet unraised
  rw [bind_apply, ran]
  exact rest watch between quiet calm

theorem returns_pure (value : β) : Returns (pure value : Session α β) value :=
  fun _ journal _ unraised => ⟨journal, rfl, unraised⟩

theorem returns_ofExcept (value : β) : Returns (ofExcept (.ok value) : Session α β) value :=
  fun watch journal _ unraised => ⟨journal, ofExcept_apply _ watch journal, unraised⟩

theorem returns_checkpoint (items : Nat) : Returns (checkpoint items : Session α Unit) () := by
  intro watch journal quiet unraised
  refine ⟨journal, ?_, unraised⟩
  rcases checkpoint_ok_or (fun _ => unraised) items with passed | ⟨-, events, loud⟩
  · exact passed
  · rw [quiet events] at loud
    cases loud

theorem returns_note (note : Note) : Returns (Session.note note : Session α Unit) () :=
  fun _ journal _ unraised => ⟨journal.write note, rfl, unraised⟩

theorem returns_report (event : Event α) : Returns (report event) () :=
  fun watch journal quiet unraised => ⟨journal.report watch event, rfl, raised_report quiet unraised event⟩

theorem returns_forM {items : List γ} {body : γ → Session α Unit} (each : ∀ item, Returns (body item) ()) :
    Returns (items.forM body) () := by
  induction items with
  | nil => exact returns_pure ()
  | cons item items ih => exact (each item).bind ih

theorem Returns.map (returns : Returns body value) (f : β → γ) : Returns (f <$> body) (f value) := by
  rw [← bind_pure_comp]
  exact returns.bind (returns_pure (f value))

theorem Returns.stage (returns : Returns body value) (name : Stage) : Returns (stage name body) value :=
  (returns_report _).bind (returns.bind ((returns_report _).bind (returns_pure value)))

theorem Returns.run (returns : Returns body value) (quiet : ∀ events, watch events = false) :
    (Session.run watch body).1 = .ok value := by
  have unraised : (Journal.start watch).raised = false := quiet []
  obtain ⟨rest, ran, -⟩ := returns watch _ quiet (raised_report quiet unraised (.begins .leiden))
  rw [Session.run, ran]

end CommunityDetection.Session
