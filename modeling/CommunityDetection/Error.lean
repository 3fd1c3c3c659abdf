import CommunityDetection.Decimal.Notation

/-!
# Errors

An error is a cause with the values it is about; `Error.message` has the wording. Faults of the
input and of the configuration are found before the search; a search that was not stopped can only
fail by an inconsistency of its state.
-/

namespace CommunityDetection

inductive InvalidInput (α : Type) where
  | relationshipOutside (source target nodeCount : Nat)
  | weightNotPositive
  | propertySize (expected found : Nat)
  | directed
  | propertyMissing (name : String)
  | seedSize (expected found : Nat)
  /-- No ids are left for the nodes without a label above the largest label. -/
  | seedsExhausted (largest unlabelled : Nat)
  | noLevels
  | gammaOutOfRange (value : α)
  | thetaOutOfRange (value : α)
  | toleranceOutOfRange (value : α)
  | noConcurrency
deriving DecidableEq, Repr

inductive Inconsistency (α : Type) where
  | moreCommunitiesThanNodes (communities nodes : Nat)
  | communityOutOfRange (community nodes : Nat)
  | communityCount (expected found : Nat)
  | communityWithoutVolume (node community ids : Nat)
  | volumeDrift (community : Nat) (actual expected : α)
  | rootLost (root id : Nat)
deriving DecidableEq, Repr

inductive DocumentFault where
  | endOfText
  | malformed
  | mismatch
deriving DecidableEq, Repr

inductive Error (α : Type) where
  | invalid (fault : InvalidInput α)
  | unreadable (fault : DocumentFault)
  | cancelled
  | inconsistent (fault : Inconsistency α)
  /-- Local moves went on beyond the number of all their states. -/
  | unsettled
deriving DecidableEq, Repr

variable {α : Type}

def InvalidInput.parameter : InvalidInput α → String
  | relationshipOutside .. | weightNotPositive | directed => "graph"
  | propertySize .. => "node_property"
  | propertyMissing _ | seedSize .. | seedsExhausted .. => "seed_property"
  | noLevels => "max_levels"
  | gammaOutOfRange _ => "gamma"
  | thetaOutOfRange _ => "theta"
  | toleranceOutOfRange _ => "tolerance"
  | noConcurrency => "concurrency"

def InvalidInput.reason [Legible α] : InvalidInput α → String
  | relationshipOutside source target nodeCount =>
    s!"relationship ({source}, {target}) references a node outside 0..{nodeCount}"
  | weightNotPositive => "Leiden algorithm requires positive edge weights."
  | propertySize expected found => s!"expected {expected} values, got {found}"
  | directed => "Leiden requires an undirected graph"
  | propertyMissing name => "graph has no node property '" ++ name ++ "'"
  | seedSize expected found => s!"expected one seed per node ({expected}), got {found}"
  | seedsExhausted largest unlabelled =>
    s!"seed labels up to {largest} leave no ids for {unlabelled} nodes without a seed"
  | noLevels | noConcurrency => "must be at least 1"
  | gammaOutOfRange value | thetaOutOfRange value =>
    "must be a positive finite number, got " ++ Legible.text value
  | toleranceOutOfRange value => "must be a non-negative finite number, got " ++ Legible.text value

def Inconsistency.message [Legible α] : Inconsistency α → String
  | moreCommunitiesThanNodes communities nodes => s!"{communities} communities for {nodes} nodes"
  | communityOutOfRange community nodes =>
    s!"community id {community} out of range for {nodes} nodes"
  | communityCount expected found => s!"expected {expected} communities, found {found}"
  | communityWithoutVolume node community ids =>
    s!"node {node} is assigned to community {community}, beyond the {ids} available ids"
  | volumeDrift community actual expected =>
    s!"volume of community {community} is " ++ Legible.text actual ++ ", members sum to "
      ++ Legible.text expected
  | rootLost root id =>
    s!"root node {root} maps to {id}, which is not a node of the working graph"

def Error.message [Legible α] : Error α → String
  | invalid fault => "invalid configuration '" ++ fault.parameter ++ "': " ++ fault.reason
  | unreadable .endOfText => "failed to parse configuration: the text ends too early"
  | unreadable .malformed => "failed to parse configuration: the text is not well formed"
  | unreadable .mismatch => "failed to parse configuration: a value does not fit its field"
  | cancelled => "the computation was cancelled"
  | inconsistent fault => "inconsistent algorithm state: " ++ fault.message
  | unsettled => "the local moves do not settle"

def Error.isCancelled : Error α → Bool
  | cancelled => true
  | _ => false

def Error.isConfigurationError : Error α → Bool
  | invalid _ | unreadable _ => true
  | _ => false

end CommunityDetection
