import CommunityDetection.Proofs.Progress.Session

/-!
# The events of a journal

An observer is told the events of a journal and not its notes, and the watch is asked about them only.
-/

namespace CommunityDetection

variable {α β γ : Type}

def Entry.event? : Entry α → Option (Event α)
  | .event reported => some reported
  | .note _ => none

@[simp] theorem Entry.event?_event (event : Event α) : (Entry.event event).event? = some event := rfl

@[simp] theorem Entry.event?_note (note : Note) : (Entry.note note : Entry α).event? = none := rfl

namespace Journal

theorem events_eq (journal : Journal α) : journal.events = journal.entries.filterMap Entry.event? := rfl

@[simp] theorem events_write (journal : Journal α) (note : Note) :
    (journal.write note).events = journal.events := rfl

@[simp] theorem events_report (journal : Journal α) (watch : Watch α) (event : Event α) :
    (journal.report watch event).events = event :: journal.events := rfl

end Journal

theorem Session.events_run (watch : Watch α) (body : Session α β) :
    (Session.run watch body).2.filterMap Entry.event? =
      (body watch ((Journal.start watch).report watch (.begins .leiden))).2.events.reverse ++
        [.ends .leiden] := by
  change (Journal.entries (.report _ watch _)).reverse.filterMap Entry.event? = _
  rw [List.filterMap_reverse, ← Journal.events_eq, Journal.events_report, List.reverse_cons]

end CommunityDetection
