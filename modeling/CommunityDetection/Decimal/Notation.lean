import CommunityDetection.Decimal.Shortest

/-!
# Numbers in messages

A binary64 number is written with the fewest digits that read back, always positionally: whole
numbers without a point, fractions with a leading zero, and never an exponent.
-/

namespace CommunityDetection

class Legible (α : Type) where
  text : α → String

namespace Decimal

def positional (digits : Nat) (exponent : Int) : String :=
  let text := Nat.repr digits
  match exponent with
  | .ofNat zeros => text ++ String.ofList (List.replicate zeros '0')
  | .negSucc below =>
    let places := below + 1
    let padded := List.replicate (places + 1 - text.length) '0' ++ text.toList
    let whole := padded.length - places
    String.ofList (padded.take whole) ++ "." ++ String.ofList (padded.drop whole)

def rounding (exponent fraction : Nat) : Rounding :=
  if exponent = 0 then { m := fraction, q := -1074, below := 2 }
  else { m := (1 <<< 52) + fraction, q := (exponent : Int) - 1075
         below := if fraction = 0 ∧ 1 < exponent then 1 else 2 }

def ofFloat (x : Float) : String :=
  let bits := x.toBits.toNat
  let exponent := (bits >>> 52) % 2048
  let fraction := bits % (1 <<< 52)
  let sign := if bits >>> 63 = 1 then "-" else ""
  if exponent = 2047 then
    if fraction = 0 then sign ++ "inf" else "NaN"
  else if exponent = 0 ∧ fraction = 0 then sign ++ "0"
  else
    let (digits, power) := (rounding exponent fraction).shortest
    sign ++ positional digits power

end Decimal

instance : Legible Float := ⟨Decimal.ofFloat⟩

end CommunityDetection
