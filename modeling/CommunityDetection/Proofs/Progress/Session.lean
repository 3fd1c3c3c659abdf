import CommunityDetection.Progress.Journal

/-!
# What sessions give

`Gives body value`: for some watch and journal the session ends with the value. What a session gives
was given by its parts, whatever was reported on the way. `FailsOnly body kind`: where the session
fails, the failure is of a kind.
-/

namespace CommunityDetection.Session

variable {α β γ : Type} {body : Session α β} {next : β → Session α γ} {value : β} {result : γ}

/-- A session may end with a value. -/
def Gives (body : Session α β) (value : β) : Prop :=
  ∃ watch journal, (body watch journal).1 = .ok value

theorem bind_apply (body : Session α β) (next : β → Session α γ) (watch : Watch α)
    (journal : Journal α) :
    (body >>= next) watch journal =
      match body watch journal with
      | (.ok value, rest) => next value watch rest
      | (.error failure, rest) => (.error failure, rest) := by
  simp only [bind, ReaderT.bind, ExceptT.bind, ExceptT.mk, StateT.bind, ExceptT.bindCont]
  cases body watch journal with
  | mk outcome rest =>
    cases outcome with
    | ok value => rfl
    | error failure => rfl

theorem ofExcept_apply (given : Except (Error α) β) (watch : Watch α) (journal : Journal α) :
    ofExcept given watch journal = (given, journal) := by
  cases given with
  | ok value => rfl
  | error failure => rfl

theorem checkpoint_apply (items : Nat) (watch : Watch α) (journal : Journal α) :
    checkpoint items watch journal = (CommunityDetection.checkpoint journal.raised items, journal) := by
  change (ofExcept (CommunityDetection.checkpoint journal.raised items) : Session α Unit) watch journal = _
  exact ofExcept_apply _ _ _

theorem Gives.bind (gives : Gives (body >>= next) result) :
    ∃ value, Gives body value ∧ Gives (next value) result := by
  obtain ⟨watch, journal, ok⟩ := gives
  rw [bind_apply] at ok
  cases ran : body watch journal with
  | mk outcome rest =>
    cases outcome with
    | ok value =>
      rw [ran] at ok
      exact ⟨value, ⟨watch, journal, by rw [ran]⟩, watch, rest, ok⟩
    | error failure =>
      rw [ran] at ok
      cases ok

theorem Gives.pure {given : β} (gives : Gives (pure given : Session α β) value) : value = given := by
  obtain ⟨watch, journal, ok⟩ := gives
  cases ok
  rfl

theorem Gives.ofExcept {given : Except (Error α) β} (gives : Gives (ofExcept given) value) :
    given = .ok value := by
  obtain ⟨watch, journal, ok⟩ := gives
  rwa [ofExcept_apply] at ok

theorem Gives.of_mapError {ε : Type} {given : Except ε β} {convert : ε → Error α}
    (gives : Gives (Session.ofExcept (given.mapError convert)) value) : given = .ok value := by
  have converted := gives.ofExcept
  cases given with
  | ok found =>
    cases converted
    rfl
  | error fault => cases converted

theorem Gives.of_throw {failure : Error α} (gives : Gives (throw failure : Session α β) value) :
    False := by
  obtain ⟨watch, journal, ok⟩ := gives
  cases ok

theorem Gives.map {f : β → γ} (gives : Gives (f <$> body) result) :
    ∃ value, Gives body value ∧ f value = result := by
  rw [← bind_pure_comp] at gives
  obtain ⟨value, before, after⟩ := gives.bind
  exact ⟨value, before, after.pure.symm⟩

theorem Gives.stage {name : Stage} (gives : Gives (stage name body) value) : Gives body value := by
  obtain ⟨-, -, gives⟩ := gives.bind
  obtain ⟨found, before, gives⟩ := gives.bind
  obtain ⟨-, -, gives⟩ := gives.bind
  rw [gives.pure]
  exact before

theorem gives_of_run {watch : Watch α} (ok : (Session.run watch body).1 = .ok value) :
    Gives body value := ⟨watch, _, ok⟩

/-! ## Failures -/

variable {kind : Error α → Prop}

def FailsOnly (body : Session α β) (kind : Error α → Prop) : Prop :=
  ∀ watch journal failure, (body watch journal).1 = .error failure → kind failure

theorem FailsOnly.bind (first : FailsOnly body kind)
    (rest : ∀ value, Gives body value → FailsOnly (next value) kind) :
    FailsOnly (body >>= next) kind := by
  intro watch journal failure failed
  rw [bind_apply] at failed
  cases ran : body watch journal with
  | mk outcome between =>
    cases outcome with
    | ok value =>
      rw [ran] at failed
      exact rest value ⟨watch, journal, by rw [ran]⟩ watch between failure failed
    | error found =>
      rw [ran] at failed
      cases failed
      exact first watch journal failure (by rw [ran])

theorem failsOnly_pure (value : β) : FailsOnly (pure value : Session α β) kind := by
  intro watch journal failure failed
  cases failed

theorem failsOnly_report (event : Event α) : FailsOnly (report event) kind := by
  intro watch journal failure failed
  cases failed

theorem failsOnly_note (note : Note) : FailsOnly (Session.note note : Session α Unit) kind := by
  intro watch journal failure failed
  cases failed

theorem failsOnly_throw {failure : Error α} (holds : kind failure) :
    FailsOnly (throw failure : Session α β) kind := by
  intro watch journal found failed
  cases failed
  exact holds

theorem failsOnly_ofExcept {given : Except (Error α) β}
    (holds : ∀ failure, given = .error failure → kind failure) : FailsOnly (ofExcept given) kind := by
  intro watch journal failure failed
  rw [ofExcept_apply] at failed
  exact holds failure failed

theorem failsOnly_checkpoint (cancelled : kind .cancelled) (items : Nat) :
    FailsOnly (checkpoint items : Session α Unit) kind := by
  intro watch journal failure failed
  rw [checkpoint_apply] at failed
  unfold CommunityDetection.checkpoint at failed
  split at failed
  · cases failed
    exact cancelled
  · cases failed

theorem failsOnly_forM {items : List γ} {body : γ → Session α Unit}
    (fails : ∀ item, FailsOnly (body item) kind) : FailsOnly (items.forM body) kind := by
  induction items with
  | nil => exact failsOnly_pure _
  | cons item items ih => exact (fails item).bind fun _ _ => ih

theorem FailsOnly.map (fails : FailsOnly body kind) (f : β → γ) : FailsOnly (f <$> body) kind := by
  rw [← bind_pure_comp]
  exact fails.bind fun _ _ => failsOnly_pure _

theorem FailsOnly.stage {name : Stage} (fails : FailsOnly body kind) :
    FailsOnly (stage name body) kind :=
  (failsOnly_report _).bind fun _ _ => fails.bind fun _ _ =>
    (failsOnly_report _).bind fun _ _ => failsOnly_pure _

theorem FailsOnly.of_run {watch : Watch α} {failure : Error α} (fails : FailsOnly body kind)
    (failed : (Session.run watch body).1 = .error failure) : kind failure :=
  fails watch _ failure failed

end CommunityDetection.Session
