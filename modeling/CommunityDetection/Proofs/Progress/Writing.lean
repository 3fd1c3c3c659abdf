import CommunityDetection.Proofs.Progress.Session

/-!
# What sessions write

A session only adds entries to the journal. `Writes body kind`: all entries that it adds, whether it
fails or not, are of a kind.
-/

namespace CommunityDetection

variable {α β γ : Type}

def Entry.Plain (entry : Entry α) : Prop :=
  ∀ iteration moves communities modularity,
    entry ≠ .event (.summary iteration moves communities modularity)

theorem Entry.plain_note (note : Note) : (Entry.note note : Entry α).Plain := nofun

theorem Entry.plain_begins (stage : Stage) : (Entry.event (.begins stage) : Entry α).Plain := nofun

theorem Entry.plain_ends (stage : Stage) : (Entry.event (.ends stage) : Entry α).Plain := nofun

namespace Session

variable {body : Session α β} {next : β → Session α γ} {kind other : Entry α → Prop}

def Writes (body : Session α β) (kind : Entry α → Prop) : Prop :=
  ∀ watch journal, ∃ written : List (Entry α),
    (body watch journal).2.entries = written ++ journal.entries ∧ ∀ entry ∈ written, kind entry

theorem Writes.mono (writes : Writes body kind) (weaker : ∀ entry, kind entry → other entry) :
    Writes body other := by
  intro watch journal
  obtain ⟨written, entries, kinds⟩ := writes watch journal
  exact ⟨written, entries, fun entry member => weaker entry (kinds entry member)⟩

theorem Writes.bind (first : Writes body kind)
    (rest : ∀ value, Gives body value → Writes (next value) kind) : Writes (body >>= next) kind := by
  intro watch journal
  obtain ⟨early, entries, earlyKinds⟩ := first watch journal
  rw [bind_apply]
  cases ran : body watch journal with
  | mk outcome between =>
    rw [ran] at entries
    cases outcome with
    | error failure => exact ⟨early, entries, earlyKinds⟩
    | ok value =>
      obtain ⟨late, further, lateKinds⟩ := rest value ⟨watch, journal, by rw [ran]⟩ watch between
      refine ⟨late ++ early, ?_, fun entry member => ?_⟩
      · rw [List.append_assoc, ← entries]
        exact further
      · rcases List.mem_append.mp member with member | member
        · exact lateKinds entry member
        · exact earlyKinds entry member

theorem writes_pure (value : β) : Writes (pure value : Session α β) kind :=
  fun _ _ => ⟨[], rfl, nofun⟩

theorem writes_throw (failure : Error α) : Writes (throw failure : Session α β) kind :=
  fun _ _ => ⟨[], rfl, nofun⟩

theorem writes_ofExcept (given : Except (Error α) β) : Writes (ofExcept given) kind := by
  intro watch journal
  rw [ofExcept_apply]
  exact ⟨[], rfl, nofun⟩

theorem writes_checkpoint (items : Nat) : Writes (checkpoint items : Session α Unit) kind := by
  intro watch journal
  rw [checkpoint_apply]
  exact ⟨[], rfl, nofun⟩

theorem writes_report {event : Event α} (holds : kind (.event event)) :
    Writes (report event) kind := by
  intro watch journal
  refine ⟨[.event event], rfl, fun entry member => ?_⟩
  rw [List.mem_singleton.mp member]
  exact holds

theorem writes_note {note : Note} (holds : kind (.note note)) :
    Writes (Session.note note : Session α Unit) kind := by
  intro watch journal
  refine ⟨[.note note], rfl, fun entry member => ?_⟩
  rw [List.mem_singleton.mp member]
  exact holds

theorem Writes.map (writes : Writes body kind) (f : β → γ) : Writes (f <$> body) kind := by
  rw [← bind_pure_comp]
  exact writes.bind fun _ _ => writes_pure _

theorem writes_forM {items : List γ} {body : γ → Session α Unit}
    (writes : ∀ item, Writes (body item) kind) : Writes (items.forM body) kind := by
  induction items with
  | nil => exact writes_pure _
  | cons item items ih => exact (writes item).bind fun _ _ => ih

theorem Writes.stage {name : Stage} (writes : Writes body kind)
    (begins : kind (.event (.begins name))) (ends : kind (.event (.ends name))) :
    Writes (stage name body) kind :=
  (writes_report begins).bind fun _ _ => writes.bind fun _ _ =>
    (writes_report ends).bind fun _ _ => writes_pure _

theorem mem_of_report {event : Event α} {rest : Session α β} (keeps : rest.Writes fun _ => True)
    (watch : Watch α) (journal : Journal α) :
    .event event ∈ ((report event >>= fun _ => rest) watch journal).2.entries := by
  obtain ⟨written, entries, -⟩ := keeps watch (journal.report watch event)
  change _ ∈ (rest watch (journal.report watch event)).2.entries
  rw [entries]
  exact List.mem_append_right _ List.mem_cons_self

theorem mem_run_iff {watch : Watch α} {entry : Entry α} :
    entry ∈ (Session.run watch body).2 ↔ entry = .event (.ends .leiden) ∨
      entry ∈ (body watch ((Journal.start watch).report watch (.begins .leiden))).2.entries := by
  change entry ∈ (_ :: (body watch _).2.entries).reverse ↔ _
  rw [List.mem_reverse]
  exact List.mem_cons

end Session

end CommunityDetection
