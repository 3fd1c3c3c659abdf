import CommunityDetection.Error

/-!
# Termination signals

A raised signal stops the work at its next checkpoint. Work on a list of items has a checkpoint
before the first of them, so work on nothing is never stopped. Handles that were shared stand for one
signal.
-/

namespace CommunityDetection

def checkpoint {α : Type} (raised : Bool) (items : Nat) : Except (Error α) Unit :=
  if raised ∧ items ≠ 0 then .error .cancelled else .ok ()

structure Handles where
  signals : Array Nat
  raised : Array Bool
deriving DecidableEq, Repr

namespace Handles

def empty : Handles := ⟨#[], #[]⟩

def fresh (handles : Handles) : Handles where
  signals := handles.signals.push handles.raised.size
  raised := handles.raised.push false

def signalOf (handles : Handles) (handle : Nat) : Nat := handles.signals.getD handle 0

def share (handles : Handles) (handle : Nat) : Handles :=
  { handles with signals := handles.signals.push (handles.signalOf handle) }

def terminate (handles : Handles) (handle : Nat) : Handles :=
  { handles with raised := handles.raised.setIfInBounds (handles.signalOf handle) true }

def isRaised (handles : Handles) (handle : Nat) : Bool :=
  handles.raised.getD (handles.signalOf handle) false

def running (handles : Handles) : List Bool :=
  handles.signals.toList.map fun signal => !handles.raised.getD signal false

end Handles

end CommunityDetection
