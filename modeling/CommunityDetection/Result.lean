import CommunityDetection.Assignment
import CommunityDetection.Hierarchy

/-!
# Results

What a search returns: the communities, the history of modularities, why the search stopped, and the
levels where they were kept.
-/

namespace CommunityDetection

inductive TerminalState where
  | converged
  /-- Modularity decreased; the communities of the iteration before are returned. -/
  | toleranceExhausted
  | maxIterationsReached
deriving DecidableEq, Repr

def TerminalState.name : TerminalState → String
  | converged => "Converged"
  | toleranceExhausted => "ToleranceExhausted"
  | maxIterationsReached => "MaxIterationsReached"

structure Result (α : Type) where
  communities : Array Nat
  ranIterations : Nat
  didConverge : Bool
  terminalState : TerminalState
  /-- The levels, where they were kept and the seeds could be improved. -/
  dendrogram : Option Dendrogram
  modularities : List α
  modularity : α
deriving DecidableEq, Repr

namespace Result

variable {α : Type}

def groups (result : Result α) : List (List Nat) := Assignment.groups result.communities

def communityCount (result : Result α) : Nat := Assignment.communityCount result.communities

end Result

end CommunityDetection
