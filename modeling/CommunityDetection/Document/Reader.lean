import CommunityDetection.Error

/-!
# Reading documents

A configuration document is read character by character; the first fault in reading order counts.
This module reads blanks, words and quoted strings.
-/

namespace CommunityDetection.Document

abbrev Reader := StateT (List Char) (Except DocumentFault)

def peek : Reader (Option Char) := return (← get).head?

def skip : Reader Unit := modify List.tail

def take : Reader (Option Char) := do
  let next ← peek
  skip
  return next

def peekSolid : Reader (Option Char) := do
  modify (·.dropWhile fun c => c = ' ' ∨ c = '\n' ∨ c = '\t' ∨ c = '\r')
  peek

def takeDigits : Reader (List Nat) := do
  let digits := (← get).takeWhile Char.isDigit
  modify (·.dropWhile Char.isDigit)
  return digits.map fun c => c.toNat - '0'.toNat

def word : List Char → Reader Unit
  | [] => return ()
  | c :: rest => do
    match ← take with
    | none => throw .endOfText
    | some next => if next = c then word rest else throw .malformed

def expect (c : Char) : Reader Unit := do
  match ← peekSolid with
  | none => throw .endOfText
  | some next => if next = c then skip else throw .malformed

def hexDigit? (c : Char) : Option Nat :=
  if c.isDigit then some (c.toNat - '0'.toNat)
  else if 'a' ≤ c ∧ c ≤ 'f' then some (c.toNat - 'a'.toNat + 10)
  else if 'A' ≤ c ∧ c ≤ 'F' then some (c.toNat - 'A'.toNat + 10)
  else none

/-- Reads the four hexadecimal digits of an escape. The text has ended if fewer than four bytes are
left. -/
def hexUnit : Reader Nat := do
  let next := (← get).take 4
  if next.foldl (fun bytes c => bytes + c.utf8Size) 0 < 4 then throw .endOfText
  match next.mapM hexDigit? with
  | none => throw .malformed
  | some digits =>
    modify (·.drop 4)
    return digits.foldl (fun value digit => 16 * value + digit) 0

def expectNow (c : Char) : Reader Unit := do
  match ← take with
  | none => throw .endOfText
  | some next => if next = c then return () else throw .malformed

/-- Reads the digits of an escaped character. A character beyond the basic plane is written as a
leading and a trailing surrogate, and neither may stand alone. -/
def escapedUnits : Reader Char := do
  let unit ← hexUnit
  if 0xDC00 ≤ unit ∧ unit ≤ 0xDFFF then throw .malformed
  if unit < 0xD800 ∨ 0xDBFF < unit then return Char.ofNat unit
  expectNow '\\'
  expectNow 'u'
  let trailing ← hexUnit
  if trailing < 0xDC00 ∨ 0xDFFF < trailing then throw .malformed
  return Char.ofNat (0x10000 + (unit - 0xD800) * 0x400 + (trailing - 0xDC00))

/-- Reads what follows a backslash. Where the string is only passed over, surrogates are not
checked. -/
def escaped (checked : Bool) : Reader Char := do
  match ← take with
  | none => throw .endOfText
  | some '"' => return '"'
  | some '\\' => return '\\'
  | some '/' => return '/'
  | some 'b' => return '\x08'
  | some 'f' => return '\x0c'
  | some 'n' => return '\n'
  | some 'r' => return '\r'
  | some 't' => return '\t'
  | some 'u' =>
    if checked then escapedUnits
    else do
      let _ ← hexUnit
      return ' '
  | some _ => throw .malformed

def quotedFrom (checked : Bool) : (steps : Nat) → (reversed : List Char) → Reader (List Char)
  | 0, _ => throw .endOfText
  | steps + 1, reversed => do
    match ← take with
    | none => throw .endOfText
    | some '"' => return reversed.reverse
    | some '\\' => quotedFrom checked steps ((← escaped checked) :: reversed)
    | some c => if c < ' ' then throw .malformed else quotedFrom checked steps (c :: reversed)

def quoted (checked : Bool) : Reader String := do
  return String.ofList (← quotedFrom checked ((← get).length + 1) [])

end CommunityDetection.Document
