import CommunityDetection.Document.Reader

/-!
# Numbers in documents

A number with a fraction or an exponent is read as its leading digits, as far as they fit into 64
bits, times or over a power of ten in binary64 arithmetic.
-/

namespace CommunityDetection.Document

inductive Number where
  | natural (value : Nat)
  /-- The integer below zero with the given absolute value. -/
  | negative (value : Nat)
  | real (value : Float)

def Number.toFloat : Number → Float
  | natural value => Float.ofNat value
  | negative value => -Float.ofNat value
  | real value => value

/-- Appends digits to a significand while it stays below `2 ^ 64`, and counts the digits left
over. -/
def appendDigits (significand : Nat) : List Nat → Nat × Nat
  | [] => (significand, 0)
  | digit :: digits =>
    if significand * 10 + digit < (1 <<< 64) then appendDigits (significand * 10 + digit) digits
    else (significand, digits.length + 1)

/-- Multiplies by a power of ten; `none` if the product is too large. Powers below `10 ^ (-308)` are
divided out in steps. As a significand is below `10 ^ 20`, four steps are enough. -/
def scale : (steps : Nat) → (value : Float) → (exponent : Int) → Option Float
  | 0, value, _ => some value
  | steps + 1, value, exponent =>
    if exponent.natAbs ≤ 308 then
      let power := Float.ofScientific 1 false exponent.natAbs
      if 0 ≤ exponent then
        let product := value * power
        if product.isInf then none else some product
      else some (value / power)
    else if value == 0.0 then some value
    else if 0 ≤ exponent then none
    else scale steps (value / 1e308) (exponent + 308)

def assemble (positive : Bool) (significand : Nat) (exponent : Int) : Reader Number :=
  match scale 4 (Float.ofNat significand) exponent with
  | none => throw .malformed
  | some value => return .real (if positive then value else -value)

def exponentBound : Nat := 1 <<< 31

def exponentPart (positive : Bool) (significand : Nat) (shift : Int) : Reader Number := do
  let mark ← peek
  if mark = some '+' ∨ mark = some '-' then skip
  match ← peek with
  | none => throw .endOfText
  | some c => if ¬c.isDigit then throw .malformed
  let digits ← takeDigits
  let size := digits.foldl (fun value digit => value * 10 + digit) 0
  if exponentBound ≤ size then
    if significand ≠ 0 ∧ mark ≠ some '-' then throw .malformed
    else return .real (if positive then 0.0 else -0.0)
  else
    let exponent := if mark = some '-' then shift - size else shift + size
    assemble positive significand (max (-exponentBound) (min (exponentBound - 1) exponent))

def isExponentMark (c : Option Char) : Bool := c == some 'e' || c == some 'E'

def fractionPart (positive : Bool) (significand : Nat) (shift : Int) : Reader Number := do
  let digits ← takeDigits
  if digits.isEmpty then
    match ← peek with
    | none => throw .endOfText
    | some _ => throw .malformed
  let (significand, leftOver) := appendDigits significand digits
  let shift := shift - (digits.length - leftOver : Nat)
  if isExponentMark (← peek) then
    skip
    exponentPart positive significand shift
  else assemble positive significand shift

/-- Reads a number after its sign. Only the number zero may start with a zero. -/
def number (positive : Bool) : Reader Number := do
  match ← peek with
  | none => throw .endOfText
  | some c => if ¬c.isDigit then throw .malformed
  let digits ← takeDigits
  if digits.head? = some 0 ∧ digits.length ≠ 1 then throw .malformed
  let (significand, leftOver) := appendDigits 0 digits
  let next ← peek
  if next = some '.' then
    skip
    fractionPart positive significand leftOver
  else if isExponentMark next then
    skip
    exponentPart positive significand leftOver
  else if leftOver ≠ 0 then assemble positive significand leftOver
  else if positive then return .natural significand
  else if significand = 0 ∨ (1 <<< 63) < significand then return .real (-Float.ofNat significand)
  else return .negative significand

def signedNumber : Reader Number := do
  if (← peek) = some '-' then
    skip
    number false
  else number true

def passDigits : Reader Unit := do
  if (← takeDigits).isEmpty then throw .malformed

def passNumber : Reader Unit := do
  let digits ← takeDigits
  if digits.isEmpty ∨ digits.head? = some 0 ∧ digits.length ≠ 1 then throw .malformed
  if (← peek) = some '.' then
    skip
    passDigits
  if isExponentMark (← peek) then
    skip
    let sign ← peek
    if sign = some '+' ∨ sign = some '-' then skip
    passDigits

end CommunityDetection.Document
