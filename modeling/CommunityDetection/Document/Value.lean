import CommunityDetection.Document.Number

/-!
# Values in documents

A value is read for the type of its field, or passed over if its field is not known. A value of
another type is read as far as needed to tell whether it is well formed.
-/

namespace CommunityDetection.Document

def startsNumber (c : Char) : Bool := c == '-' || c.isDigit

def misfit {β : Type} : Reader β := do
  match ← peekSolid with
  | none => throw .endOfText
  | some 'n' => word "null".toList
  | some 't' => word "true".toList
  | some 'f' => word "false".toList
  | some '"' => do
    skip
    let _ ← quoted true
  | some '[' | some '\x7b' => throw .mismatch
  | some c =>
    if startsNumber c then
      let _ ← signedNumber
    else throw .malformed
  throw .mismatch

def numberValue : Reader Number := do
  match ← peekSolid with
  | some c => if startsNumber c then signedNumber else misfit
  | none => misfit

def natValue : Reader Nat := do
  match ← numberValue with
  | .natural value => return value
  | _ => throw .mismatch

def floatValue : Reader Float := return (← numberValue).toFloat

def boolValue : Reader Bool := do
  match ← peekSolid with
  | some 't' =>
    word "true".toList
    return true
  | some 'f' =>
    word "false".toList
    return false
  | _ => misfit

def textValue : Reader String := do
  match ← peekSolid with
  | some '"' =>
    skip
    quoted true
  | _ => misfit

def optional {β : Type} (value : Reader β) : Reader (Option β) := do
  match ← peekSolid with
  | some 'n' =>
    word "null".toList
    return none
  | _ => return some (← value)

inductive Frame where
  | list
  | object
deriving DecidableEq, Repr

def Frame.closing : Frame → Char
  | list => ']'
  | object => '\x7d'

def Frame.passKey : Frame → Reader Unit
  | list => return ()
  | object => do
    expect '"'
    let _ ← quoted false
    expect ':'

def passElement : Reader (Option Frame) := do
  match ← peekSolid with
  | none => throw .endOfText
  | some '[' =>
    skip
    return some .list
  | some '\x7b' =>
    skip
    return some .object
  | some 'n' => word "null".toList
  | some 't' => word "true".toList
  | some 'f' => word "false".toList
  | some '"' =>
    skip
    let _ ← quoted false
  | some '-' =>
    skip
    passNumber
  | some c => if c.isDigit then passNumber else throw .malformed
  return none

/-- Closes frames that end here and gives those that are still open where a further value is to
come. A comma is only allowed after a value. -/
def closeFrames : (afterValue : Bool) → List Frame → Reader (Option (List Frame))
  | _, [] => return none
  | afterValue, frame :: outer => do
    match ← peekSolid with
    | none => throw .endOfText
    | some c =>
      if c = ',' ∧ afterValue then
        skip
        frame.passKey
        return some (frame :: outer)
      else if c = frame.closing then
        skip
        closeFrames true outer
      else if afterValue then throw .malformed
      else
        frame.passKey
        return some (frame :: outer)

def passFrom : (steps : Nat) → List Frame → Reader Unit
  | 0, _ => throw .endOfText
  | steps + 1, frames => do
    let open? ←
      match ← passElement with
      | some frame => closeFrames false (frame :: frames)
      | none => closeFrames true frames
    match open? with
    | none => return ()
    | some frames => passFrom steps frames

def passValue : Reader Unit := do
  passFrom ((← get).length + 1) []

end CommunityDetection.Document
