import CommunityDetection.Proofs.Progress.Events
import CommunityDetection.Result

/-!
# Sessions that differ in modularities

The veil hides modularities. Two sessions mirror each other if a watch that does not see modularities cannot
tell them apart: under the veil they write the same, and they end with the same failure or with related values.
Sessions mirror each other if their parts do in order.
-/

namespace CommunityDetection

variable {α β β' γ γ' : Type}

def Event.veil : Event α → Event Unit
  | .begins stage => .begins stage
  | .ends stage => .ends stage
  | .summary iteration moves communities _ => .summary iteration moves communities ()

def Entry.veil : Entry α → Entry Unit
  | .event reported => .event reported.veil
  | .note written => .note written

def Result.veil (result : Result α) : Result Unit :=
  { result with modularities := result.modularities.map fun _ => (), modularity := () }

/-- A watch that does not see modularities. -/
def Watch.Blind (watch : Watch α) : Prop :=
  ∀ first second, first.map Event.veil = second.map Event.veil → watch first = watch second

theorem Watch.blind_const (raises : Bool) : Watch.Blind fun _ : List (Event α) => raises := fun _ _ _ => rfl

structure Journal.Alike (left right : Journal α) : Prop where
  entries : left.entries.map Entry.veil = right.entries.map Entry.veil
  raised : left.raised = right.raised

namespace Journal

variable {left right : Journal α} {watch : Watch α}

theorem Alike.refl (journal : Journal α) : journal.Alike journal := ⟨rfl, rfl⟩

theorem veil_events (journal : Journal α) :
    journal.events.map Event.veil = (journal.entries.map Entry.veil).filterMap Entry.event? := by
  rw [events_eq, List.map_filterMap, List.filterMap_map]
  congr 1
  funext entry
  cases entry <;> rfl

theorem Alike.write (alike : left.Alike right) (note : Note) : (left.write note).Alike (right.write note) :=
  ⟨congrArg (Entry.note note :: ·) alike.entries, alike.raised⟩

theorem Alike.report (alike : left.Alike right) (blind : watch.Blind) {event other : Event α}
    (same : event.veil = other.veil) : (left.report watch event).Alike (right.report watch other) := by
  have events : left.events.map Event.veil = right.events.map Event.veil := by
    rw [veil_events, veil_events, alike.entries]
  constructor
  · simp [Journal.report, Entry.veil, same, alike.entries]
  · have asked := blind (event :: left.events) (other :: right.events) (by simp [same, events])
    simp [Journal.report, asked, alike.raised]

end Journal

namespace Session

variable {related : β → β' → Prop} {after : γ → γ' → Prop} {left : Session α β} {right : Session α β'}

inductive Mirror (related : β → β' → Prop) :
    Except (Error α) β × Journal α → Except (Error α) β' × Journal α → Prop
  | error {failure : Error α} {first second : Journal α} (alike : first.Alike second) :
      Mirror related (.error failure, first) (.error failure, second)
  | ok {x : β} {y : β'} {first second : Journal α} (holds : related x y) (alike : first.Alike second) :
      Mirror related (.ok x, first) (.ok y, second)

/-- No watch that does not see modularities can tell the sessions apart. -/
def Mirrors (related : β → β' → Prop) (left : Session α β) (right : Session α β') : Prop :=
  ∀ watch : Watch α, watch.Blind → ∀ first second : Journal α, first.Alike second →
    Mirror related (left watch first) (right watch second)

theorem mirrors_pure {x : β} {y : β'} (holds : related x y) :
    Mirrors related (pure x : Session α β) (pure y) := fun _ _ _ _ alike => .ok holds alike

theorem mirrors_throw (failure : Error α) :
    Mirrors related (throw failure : Session α β) (throw failure) := fun _ _ _ _ alike => .error alike

theorem Mirrors.bind {next : β → Session α γ} {next' : β' → Session α γ'}
    (start : Mirrors related left right)
    (rest : ∀ x y, related x y → Gives left x → Gives right y → Mirrors after (next x) (next' y)) :
    Mirrors after (left >>= next) (right >>= next') := by
  intro watch blind first second alike
  rw [bind_apply, bind_apply]
  have mirror := start watch blind first second alike
  cases ranLeft : left watch first with
  | mk outcome between =>
    cases ranRight : right watch second with
    | mk outcome' between' =>
      rw [ranLeft, ranRight] at mirror
      cases mirror with
      | error alike => exact .error alike
      | ok holds alike =>
        exact rest _ _ holds ⟨watch, first, by rw [ranLeft]⟩ ⟨watch, second, by rw [ranRight]⟩ watch blind _ _
          alike

theorem Mirrors.seq {next : β → Session α γ} {next' : β' → Session α γ'}
    (start : Mirrors (fun _ _ => True) left right) (rest : ∀ x y, Mirrors after (next x) (next' y)) :
    Mirrors after (left >>= next) (right >>= next') := start.bind fun x y _ _ _ => rest x y

theorem Mirrors.of_gives {other : β → β' → Prop} (same : Mirrors related left right)
    (rest : ∀ x y, related x y → Gives left x → Gives right y → other x y) : Mirrors other left right := by
  have again : Mirrors other (left >>= pure) (right >>= pure) :=
    same.bind fun x y holds givesLeft givesRight => mirrors_pure (rest x y holds givesLeft givesRight)
  simpa only [bind_pure] using again

theorem mirrors_ofExcept (given : Except (Error α) β) :
    Mirrors (fun x y => x = y) (ofExcept given) (ofExcept given) := by
  cases given with
  | ok value => exact mirrors_pure rfl
  | error failure => exact mirrors_throw failure

theorem mirrors_checkpoint (items : Nat) :
    Mirrors (fun _ _ => True) (checkpoint items : Session α Unit) (checkpoint items) := by
  intro watch blind first second alike
  rw [checkpoint_apply, checkpoint_apply, alike.raised]
  cases CommunityDetection.checkpoint second.raised items with
  | ok => exact .ok trivial alike
  | error failure => exact .error alike

theorem mirrors_note (note : Note) :
    Mirrors (fun _ _ => True) (Session.note note : Session α Unit) (Session.note note) :=
  fun _ _ _ _ alike => .ok trivial (alike.write note)

theorem mirrors_report {event other : Event α} (same : event.veil = other.veil) :
    Mirrors (fun _ _ => True) (report event) (report other) :=
  fun _ blind _ _ alike => .ok trivial (alike.report blind same)

theorem mirrors_forM {ι : Type} {items : List ι} {body : ι → Session α Unit}
    (mirrors : ∀ item, Mirrors (fun _ _ => True) (body item) (body item)) :
    Mirrors (fun _ _ => True) (items.forM body) (items.forM body) := by
  induction items with
  | nil => exact mirrors_pure trivial
  | cons item items ih => exact (mirrors item).seq fun _ _ => ih

theorem Mirrors.stage (same : Mirrors related left right) (name : Stage) :
    Mirrors related (stage name left) (stage name right) :=
  (mirrors_report rfl).seq fun _ _ => same.bind fun _ _ holds _ _ =>
    (mirrors_report rfl).seq fun _ _ => mirrors_pure holds

theorem Mirrors.run (same : Mirrors related left right) {watch : Watch α} (blind : watch.Blind) :
    (run watch left).2.map Entry.veil = (run watch right).2.map Entry.veil ∧
      ((∃ failure, (run watch left).1 = .error failure ∧ (run watch right).1 = .error failure) ∨
        ∃ x y, related x y ∧ (run watch left).1 = .ok x ∧ (run watch right).1 = .ok y) := by
  have mirror := same watch blind _ _ (.refl ((Journal.start watch).report watch (.begins .leiden)))
  unfold Session.run
  dsimp only
  revert mirror
  generalize left watch _ = first, right watch _ = second
  intro mirror
  cases mirror with
  | error alike =>
    refine ⟨?_, .inl ⟨_, rfl, rfl⟩⟩
    simp only [List.map_reverse, (alike.report blind rfl).entries]
  | ok holds alike =>
    refine ⟨?_, .inr ⟨_, _, holds, rfl, rfl⟩⟩
    simp only [List.map_reverse, (alike.report blind rfl).entries]

end Session

end CommunityDetection
