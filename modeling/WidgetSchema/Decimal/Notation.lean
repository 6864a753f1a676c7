-- How a decimal is laid out as text: positional or with an exponent.
import WidgetSchema.Decimal.Shortest
namespace WidgetSchema.Decimal

structure Notation where
  tie : Tie
  /-- Whether a number with this power of ten at its first digit is written out in full. -/
  positional : Int → Bool
  /-- Whether whole numbers end in `.0`. -/
  keepsPoint : Bool

def zeros (n : Nat) : String := String.ofList (List.replicate n '0')

/-- The text of a positive decimal. -/
def Notation.layout (style : Notation) (d : Scaled) : String :=
  let digits := Nat.toDigits 10 d.digits
  let power : Int := d.exponent + (digits.length - 1 : Nat)
  let point := if style.keepsPoint then ".0" else ""
  if style.positional power then
    if 0 ≤ d.exponent then String.ofList digits ++ zeros d.exponent.toNat ++ point
    else if 0 ≤ power then
      let (whole, fraction) := digits.splitAt (power.toNat + 1)
      String.ofList whole ++ "." ++ String.ofList fraction
    else "0." ++ zeros (-power - 1).toNat ++ String.ofList digits
  else
    let fraction := digits.drop 1
    String.ofList (digits.take 1) ++
      (if fraction.isEmpty then "" else "." ++ String.ofList fraction) ++
      "e" ++ (if power < 0 then "-" else "+") ++ toString power.natAbs

/-- The text of a finite number. -/
def Notation.text (style : Notation) (x : Float) : String :=
  let (m, q) := magnitude x
  let sign := if isNegative x then "-" else ""
  if m = 0 then sign ++ "0" ++ (if style.keepsPoint then ".0" else "")
  else sign ++ style.layout (shortest style.tie m q)

/-- Numbers in stored data are written in full from `0.00001` up to sixteen digits before
the point, and keep a point so that they read back as fractions. -/
def stored : Notation := ⟨.even, fun power => -5 ≤ power && power ≤ 15, true⟩

/-- Numbers in messages are always written in full. -/
def plain : Notation := ⟨.up, fun _ => true, false⟩

/-- The text of a number in a message: `3`, `2.5`. -/
def message (x : Float) : String :=
  if x.isNaN then "NaN"
  else if x.isInf then if isNegative x then "-inf" else "inf"
  else
    let (m, _) := magnitude x
    if m = 0 then "0" else plain.text x

end WidgetSchema.Decimal
