import CommunityDetection.Result
import CommunityDetection.Termination

/-!
# Journals

A search writes a journal of events and notes. After each event a watch may raise the termination
signal, which stays raised and stops the search at its next checkpoint. A `Session` is a part of a
search that reads the watch, writes the journal, and may fail.
-/

namespace CommunityDetection

inductive Stage where
  | leiden
  | initialization
  | iteration
  | localMove
  | modularity
  | refinement
  | aggregation
deriving DecidableEq, Repr

inductive Event (α : Type) where
  | begins (stage : Stage)
  | ends (stage : Stage)
  | summary (iteration moves communities : Nat) (modularity : α)
deriving DecidableEq, Repr

inductive Note where
  | passed (pass moves : Nat)
  | decreased (iteration : Nat)
  | aggregated (nodes coarseNodes communities : Nat)
  | stopped (iterations : Nat) (state : TerminalState) (levels : Nat)
deriving DecidableEq, Repr

inductive Entry (α : Type) where
  | event (event : Event α)
  | note (note : Note)
deriving DecidableEq, Repr

/-- Whether to raise the signal, given the events so far, latest first. It is asked before the first
event too. -/
abbrev Watch (α : Type) := List (Event α) → Bool

/-- The entries so far, latest first, and whether the signal is raised. -/
structure Journal (α : Type) where
  entries : List (Entry α)
  raised : Bool

namespace Journal

variable {α : Type}

def events (journal : Journal α) : List (Event α) :=
  journal.entries.filterMap fun
    | .event event => some event
    | .note _ => none

def start (watch : Watch α) : Journal α := { entries := [], raised := watch [] }

def write (journal : Journal α) (note : Note) : Journal α :=
  { journal with entries := .note note :: journal.entries }

def report (journal : Journal α) (watch : Watch α) (event : Event α) : Journal α :=
  { entries := .event event :: journal.entries
    raised := journal.raised || watch (event :: journal.events) }

end Journal

abbrev Session (α : Type) := ReaderT (Watch α) (ExceptT (Error α) (StateM (Journal α)))

namespace Session

variable {α β : Type}

def report (event : Event α) : Session α Unit := do
  let watch ← read
  modify (·.report watch event)

def note (note : Note) : Session α Unit := modify (·.write note)

def checkpoint (items : Nat) : Session α Unit := do
  liftM (CommunityDetection.checkpoint (α := α) (← get).raised items)

def ofExcept (value : Except (Error α) β) : Session α β := liftM value

def stage (stage : Stage) (body : Session α β) : Session α β := do
  report (.begins stage)
  let value ← body
  report (.ends stage)
  return value

/-- Runs a session as the whole search: its end is reported even if it fails. The journal lists its
entries from first to last. -/
def run (watch : Watch α) (body : Session α β) : Except (Error α) β × List (Entry α) :=
  let journal := (Journal.start watch).report watch (.begins .leiden)
  let (value, journal) := body watch journal
  (value, (journal.report watch (.ends .leiden)).entries.reverse)

end Session

end CommunityDetection
