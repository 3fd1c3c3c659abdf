import CommunityDetection.Proofs.Progress.Events

/-!
# Raised signals and nested stages

From a journal in which no raised signal was missed and the stages are nested (`Journal.Heeded`), a session
leads to such a journal or fails (`Session.Heeds`). If it fails at a stage that began with the signal raised,
it was cancelled there and told nothing after that beginning (`Journal.Cut`).
-/

namespace CommunityDetection

variable {α β γ : Type}

/-- The stages that look at the signal when they begin. -/
def Stage.Guarded (stage : Stage) : Prop := stage ≠ .leiden ∧ stage ≠ .iteration

/-- The watch raises the signal after some of the events, or before the first. -/
def Watch.Raises (watch : Watch α) (events : List (Event α)) : Prop :=
  ∃ reported, reported <+: events ∧ watch reported.reverse = true

namespace Event

/-- The open stages after an event, innermost first. Only the innermost one can end. -/
def opens : (opened : List Stage) → Event α → Option (List Stage)
  | opened, .begins stage => some (stage :: opened)
  | innermost :: opened, .ends stage => if stage = innermost then some opened else none
  | [], .ends _ => none
  | opened, .summary .. => some opened

def opened? (events : List (Event α)) : Option (List Stage) := events.foldlM opens []

/-- Every stage that begins ends, and all stages that begin in between end before it. -/
def Nested (events : List (Event α)) : Prop := opened? events = some []

instance (events : List (Event α)) : Decidable (Nested events) :=
  inferInstanceAs (Decidable (_ = _))

@[simp] theorem opens_begins (opened : List Stage) (stage : Stage) :
    opens opened (.begins stage : Event α) = some (stage :: opened) := by
  cases opened <;> rfl

@[simp] theorem opens_ends (opened : List Stage) (stage : Stage) :
    opens (stage :: opened) (.ends stage : Event α) = some opened := if_pos rfl

@[simp] theorem opens_summary (opened : List Stage) (iteration moves communities : Nat) (modularity : α) :
    opens opened (.summary iteration moves communities modularity) = some opened := by
  cases opened <;> rfl

theorem opened?_concat (events : List (Event α)) (event : Event α) :
    opened? (events ++ [event]) = (opened? events).bind (opens · event) := by
  simp [opened?, List.foldlM_append]

end Event

theorem Watch.raises_nil {watch : Watch α} : watch.Raises [] ↔ watch [] = true := by
  simp [Raises]

theorem Watch.raises_concat {watch : Watch α} {events : List (Event α)} {event : Event α} :
    watch.Raises (events ++ [event]) ↔ watch.Raises events ∨ watch (event :: events.reverse) = true := by
  simp only [Raises, List.prefix_concat_iff]
  constructor
  · rintro ⟨reported, rfl | early, loud⟩
    · exact .inr (by simpa using loud)
    · exact .inl ⟨reported, early, loud⟩
  · rintro (⟨reported, early, loud⟩ | loud)
    · exact ⟨reported, .inr early, loud⟩
    · exact ⟨_, .inl rfl, by simpa using loud⟩

namespace Journal

variable {watch : Watch α} {opened inner : List Stage} {journal rest : Journal α} {event : Event α}
  {stage : Stage}

def told (journal : Journal α) : List (Event α) := journal.events.reverse

@[simp] theorem told_start (watch : Watch α) : (Journal.start watch).told = [] := rfl

@[simp] theorem told_report (journal : Journal α) (watch : Watch α) (event : Event α) :
    (journal.report watch event).told = journal.told ++ [event] := by
  simp [told]

/-- The signal is raised if the watch raised it, and no stage began to work in spite of it. -/
structure Heeded (watch : Watch α) (opened : List Stage) (journal : Journal α) : Prop where
  raised : journal.raised = true ↔ watch.Raises journal.told
  quiet : ∀ before stage, before ++ [.begins stage] <+: journal.told → stage.Guarded →
    ¬watch.Raises (before ++ [.begins stage])
  opened : Event.opened? journal.told = some opened

/-- A failure after which no stage has begun in spite of a raised signal, or which is the stop of the stage
that began last. -/
def Cut (watch : Watch α) (failure : Error α) (journal : Journal α) : Prop :=
  ∀ before stage, before ++ [.begins stage] <+: journal.told → stage.Guarded →
    watch.Raises (before ++ [.begins stage]) →
      failure = .cancelled ∧ journal.told = before ++ [.begins stage]

theorem heeded_start (watch : Watch α) : (Journal.start watch).Heeded watch [] := by
  refine ⟨Watch.raises_nil.symm, fun before stage early => ?_, rfl⟩
  simp at early

theorem Heeded.raised_report (heeded : journal.Heeded watch opened) (event : Event α) :
    (journal.report watch event).raised = true ↔ watch.Raises (journal.report watch event).told := by
  rw [told_report, Watch.raises_concat, ← heeded.raised, told, List.reverse_reverse]
  exact Bool.or_eq_true_iff

theorem Heeded.report (heeded : journal.Heeded watch opened) (opens : event.opens opened = some inner)
    (unraised : ∀ stage, event = .begins stage → stage.Guarded →
      (journal.report watch event).raised ≠ true) :
    (journal.report watch event).Heeded watch inner := by
  refine ⟨heeded.raised_report event, fun before stage early guarded => ?_, ?_⟩
  · rw [told_report] at early
    rcases List.prefix_concat_iff.mp early with last | early
    · obtain ⟨-, begins⟩ := List.append_inj' last rfl
      rw [last, ← told_report, ← heeded.raised_report event]
      exact unraised stage (List.singleton_inj.mp begins).symm guarded
    · exact heeded.quiet before stage early guarded
  · rw [told_report, Event.opened?_concat, heeded.opened]
    exact opens

theorem Heeded.write (heeded : journal.Heeded watch opened) (note : Note) :
    (journal.write note).Heeded watch opened :=
  ⟨heeded.raised, heeded.quiet, heeded.opened⟩

theorem Heeded.cut (heeded : journal.Heeded watch opened) (failure : Error α) :
    journal.Cut watch failure :=
  fun before stage early guarded raises => absurd raises (heeded.quiet before stage early guarded)

theorem Heeded.cut_begins (heeded : journal.Heeded watch opened) (stage : Stage) :
    (journal.report watch (.begins stage)).Cut watch .cancelled := by
  intro before other early guarded raises
  rw [told_report] at early
  rcases List.prefix_concat_iff.mp early with last | early
  · exact ⟨rfl, (told_report _ _ _).trans last.symm⟩
  · exact absurd raises (heeded.quiet before other early guarded)

inductive Leads (watch : Watch α) (opened : List Stage) : Except (Error α) β × Journal α → Prop
  | ok {value : β} {journal : Journal α} (heeded : journal.Heeded watch opened) :
      Leads watch opened (.ok value, journal)
  | error {failure : Error α} {journal : Journal α} (cut : journal.Cut watch failure) :
      Leads watch opened (.error failure, journal)

end Journal

namespace Session

variable {watch : Watch α} {body : Session α β} {next : β → Session α γ}
  {opened between inner : List Stage} {event : Event α} {stage : Stage}

/-- A session that starts within the open stages `opened` and ends within `inner` misses no signal. -/
def Heeds (body : Session α β) (watch : Watch α) (opened inner : List Stage) : Prop :=
  ∀ journal, journal.Heeded watch opened → Journal.Leads watch inner (body watch journal)

theorem Heeds.bind (first : body.Heeds watch opened between)
    (rest : ∀ value, Gives body value → (next value).Heeds watch between inner) :
    (body >>= next).Heeds watch opened inner := by
  intro journal heeded
  have leads := first journal heeded
  rw [bind_apply]
  cases ran : body watch journal with
  | mk outcome reported =>
    rw [ran] at leads
    cases leads with
    | ok heeded => exact rest _ ⟨watch, journal, by rw [ran]⟩ reported heeded
    | error cut => exact .error cut

theorem heeds_pure (value : β) : (pure value : Session α β).Heeds watch opened opened :=
  fun _ heeded => .ok heeded

theorem heeds_throw (failure : Error α) : (throw failure : Session α β).Heeds watch opened opened :=
  fun _ heeded => .error (heeded.cut failure)

theorem heeds_ofExcept (given : Except (Error α) β) : (ofExcept given).Heeds watch opened opened := by
  cases given with
  | ok value => exact heeds_pure value
  | error failure => exact heeds_throw failure

theorem heeds_checkpoint (items : Nat) : (checkpoint items).Heeds watch opened opened := by
  intro journal heeded
  rw [checkpoint_apply]
  cases CommunityDetection.checkpoint journal.raised items with
  | ok => exact .ok heeded
  | error failure => exact .error (heeded.cut failure)

theorem heeds_note (note : Note) : (Session.note note).Heeds watch opened opened :=
  fun _ heeded => .ok (heeded.write note)

theorem heeds_forM {items : List γ} {body : γ → Session α Unit}
    (heeds : ∀ item, (body item).Heeds watch opened opened) : (items.forM body).Heeds watch opened opened := by
  induction items with
  | nil => exact heeds_pure _
  | cons item items ih => exact (heeds item).bind fun _ _ => ih

theorem Heeds.map (heeds : body.Heeds watch opened inner) (f : β → γ) :
    (f <$> body).Heeds watch opened inner := by
  rw [← bind_pure_comp]
  exact heeds.bind fun _ _ => heeds_pure _

theorem heeds_report (opens : event.opens opened = some inner)
    (unguarded : ∀ stage, event = .begins stage → ¬stage.Guarded) :
    (report event).Heeds watch opened inner :=
  fun _ heeded => .ok (heeded.report opens fun stage begins guarded => absurd guarded (unguarded stage begins))

theorem heeds_ends (stage : Stage) :
    (report (.ends stage)).Heeds watch (stage :: opened) opened :=
  heeds_report (Event.opens_ends opened stage) nofun

theorem heeds_stage {items : Nat} (nonempty : items ≠ 0)
    (rest : body.Heeds watch (stage :: opened) (stage :: opened)) :
    (Session.stage stage (checkpoint items >>= fun _ => body)).Heeds watch opened opened := by
  intro journal heeded
  change Journal.Leads watch opened (((checkpoint items >>= fun _ => body) >>= fun value =>
    report (.ends stage) >>= fun _ => pure value) watch (journal.report watch (.begins stage)))
  by_cases raised : (journal.report watch (.begins stage)).raised = true
  · rw [bind_apply, bind_apply, checkpoint_apply, CommunityDetection.checkpoint, if_pos ⟨raised, nonempty⟩]
    exact .error (heeded.cut_begins stage)
  · have begun := heeded.report (Event.opens_begins opened stage) fun _ _ _ => raised
    refine Heeds.bind ((heeds_checkpoint items).bind fun _ _ => rest) (fun value _ => ?_) _ begun
    exact (heeds_ends stage).bind fun _ _ => heeds_pure value

theorem Heeds.leads_run (heeds : body.Heeds watch [.leiden] [.leiden]) :
    Journal.Leads watch [.leiden] (body watch ((Journal.start watch).report watch (.begins .leiden))) :=
  heeds _ ((Journal.heeded_start watch).report rfl fun _ begins guarded =>
    absurd (Event.begins.inj begins).symm guarded.1)

/-- A stage of a whole search that begins with the signal raised is the last one to begin, and nothing but the
end of the search is told after that. -/
theorem Heeds.stops (heeds : body.Heeds watch [.leiden] [.leiden]) {before : List (Event α)}
    (early : before ++ [.begins stage] <+: (Session.run watch body).2.filterMap Entry.event?)
    (guarded : stage.Guarded) (raises : watch.Raises (before ++ [.begins stage])) :
    (Session.run watch body).1 = .error .cancelled ∧
      (Session.run watch body).2.filterMap Entry.event? = before ++ [.begins stage, .ends .leiden] := by
  have leads := heeds.leads_run
  rw [events_run] at early ⊢
  have outcome : (Session.run watch body).1 =
    (body watch ((Journal.start watch).report watch (.begins .leiden))).1 := rfl
  rw [outcome]
  generalize body watch _ = last at leads early ⊢
  have told : before ++ [.begins stage] <+: last.2.told := by
    rcases List.prefix_concat_iff.mp early with same | early
    · simpa using (List.append_inj' same rfl).2
    · exact early
  cases leads with
  | ok heeded => exact absurd raises (heeded.quiet before stage told guarded)
  | error cut =>
    obtain ⟨rfl, whole⟩ := cut before stage told guarded raises
    refine ⟨rfl, ?_⟩
    change _ = before ++ ([.begins stage] ++ [.ends .leiden])
    rw [← List.append_assoc, ← whole]
    rfl

theorem Heeds.nested (heeds : body.Heeds watch [.leiden] [.leiden]) {value : β}
    (ok : (Session.run watch body).1 = .ok value) :
    Event.Nested ((Session.run watch body).2.filterMap Entry.event?) := by
  have leads := heeds.leads_run
  change (body watch ((Journal.start watch).report watch (.begins .leiden))).1 = .ok value at ok
  rw [events_run]
  generalize body watch _ = last at leads ok ⊢
  cases leads with
  | error => cases ok
  | ok heeded =>
    refine (Event.opened?_concat _ _).trans ?_
    exact congrArg (Option.bind · fun opened => Event.opens opened (.ends .leiden)) heeded.opened

end Session

end CommunityDetection
