import CommunityDetection.Progress.Journal

/-!
# Journals as text

The texts of events and notes, the lines that a log receives, and watches that wait for the text of
an event.
-/

namespace CommunityDetection

def Stage.name : Stage → String
  | leiden => "Leiden"
  | initialization => "Initialization"
  | iteration => "Iteration"
  | localMove => "Local Move"
  | modularity => "Modularity Computation"
  | refinement => "Refinement"
  | aggregation => "Aggregation"

variable {α : Type} [Legible α]

def Event.summaryText (iteration moves communities : Nat) (modularity : α) : String :=
  s!"iteration {iteration}: {moves} swaps, {communities} communities, modularity "
    ++ Legible.text modularity

def Event.text : Event α → String
  | begins stage => "begin " ++ stage.name
  | ends stage => "end " ++ stage.name
  | summary iteration moves communities modularity =>
    "log " ++ summaryText iteration moves communities modularity

def Event.line (task : String) : Event α → String
  | begins stage => "DEBUG " ++ task ++ " :: " ++ stage.name ++ " :: Start"
  | ends stage => "DEBUG " ++ task ++ " :: " ++ stage.name ++ " :: Finished"
  | summary iteration moves communities modularity =>
    "INFO " ++ task ++ " :: " ++ summaryText iteration moves communities modularity

def Note.line : Note → String
  | passed pass moves => s!"TRACE local move pass {pass}: {moves} swaps"
  | decreased iteration =>
    s!"DEBUG modularity decreased in iteration {iteration}, keeping iteration {iteration - 1}"
  | aggregated nodes coarseNodes communities =>
    s!"DEBUG aggregated {nodes} nodes into {coarseNodes} nodes in {communities} communities"
  | stopped iterations state levels =>
    s!"INFO Leiden stopped after {iterations} iterations ({state.name}), "
      ++ s!"{levels} dendrogram levels recorded"

def eventTexts (entries : List (Entry α)) : List String :=
  entries.filterMap fun
    | .event event => some event.text
    | .note _ => none

def logLines (task : Option String) (entries : List (Entry α)) : List String :=
  entries.filterMap fun
    | .event event => task.map event.line
    | .note note => some note.line

def standardTask : String := "Leiden"

namespace Watch

def never : Watch α := fun _ => false

def atStart : Watch α := fun _ => true

def onEvent (start : String) (occurrence : Nat) : Watch α
  | [] => false
  | event :: earlier =>
    event.text.startsWith start &&
      (event :: earlier).countP (fun event => event.text.startsWith start) == occurrence

end Watch

end CommunityDetection
