-- Reading floating-point numbers from text: loosely written numbers, as people type them,
-- and the numbers of stored data.
import WidgetSchema.Text.Search
namespace WidgetSchema.Decimal

open Text

/-- The number that a list of decimal digits writes. -/
def ofDigits (ds : List Char) : Nat :=
  ds.foldl (fun n c => 10 * n + (c.toNat - '0'.toNat)) 0

/-! ## Numbers as people type them -/

/-- The number nearest to `digits · 10^exponent`. Beyond four hundred places on either side
every number is infinite or zero. -/
def nearest (digits : Nat) (exponent : Int) : Float :=
  let size : Int := (Nat.toDigits 10 digits).length + exponent
  if digits = 0 || size < -400 then 0.0
  else if 400 < size then 1.0 / 0.0
  else Float.ofScientific digits (decide (exponent < 0)) exponent.natAbs

/-- The exponent part at the end of a number, zero when there is none. -/
def exponentPart? : List Char → Option Int
  | [] => some 0
  | e :: cs =>
    if e = 'e' || e = 'E' then
      let (negative, digits) : Bool × List Char :=
        match cs with
        | '+' :: ds => (false, ds)
        | '-' :: ds => (true, ds)
        | ds => (false, ds)
      if digits.isEmpty || !digits.all isAsciiDigit then none
      else some (if negative then -(ofDigits digits : Int) else ofDigits digits)
    else none

/-- A number without its sign: digits with an optional point and exponent, or a name for
infinity or for no number. -/
def unsigned? (cs : List Char) : Option Float :=
  let word := String.ofList (cs.map Char.toLower)
  if word = "inf" || word = "infinity" then some (1.0 / 0.0)
  else if word = "nan" then some (0.0 / 0.0)
  else
    let whole := cs.takeWhile isAsciiDigit
    let rest := cs.dropWhile isAsciiDigit
    let (fraction, rest) : List Char × List Char :=
      match rest with
      | '.' :: ds => (ds.takeWhile isAsciiDigit, ds.dropWhile isAsciiDigit)
      | ds => ([], ds)
    if whole.isEmpty && fraction.isEmpty then none
    else
      (exponentPart? rest).map fun exponent =>
        nearest (ofDigits (whole ++ fraction)) (exponent - fraction.length)

/-- Reads a number with an optional sign. Nothing may stand before or after it. -/
def float? (s : String) : Option Float :=
  match s.toList with
  | '-' :: cs => (unsigned? cs).map fun x => -x
  | '+' :: cs => unsigned? cs
  | cs => unsigned? cs

/-! ## Numbers of stored data -/

def maxWord : Nat := Nat.pow 2 64 - 1

/-- Digits gathered into a word of 64 bits, times a power of ten. -/
structure Gathered where
  word : Nat
  exponent : Int
  /-- Whether a digit did not fit, so that no later one is gathered. -/
  full : Bool

/-- One more digit before the point. A digit that does not fit counts as a place. -/
def Gathered.whole (g : Gathered) (c : Char) : Gathered :=
  let next := 10 * g.word + (c.toNat - '0'.toNat)
  if g.full || maxWord < next then { g with exponent := g.exponent + 1, full := true }
  else { g with word := next }

/-- One more digit after the point. A digit that does not fit is dropped. -/
def Gathered.fraction (g : Gathered) (c : Char) : Gathered :=
  let next := 10 * g.word + (c.toNat - '0'.toNat)
  if g.full || maxWord < next then { g with full := true }
  else { g with word := next, exponent := g.exponent - 1 }

/-- A number divided by ten to the given power, in steps of at most 308 places. -/
def divideByPower (x : Float) (places : Nat) : Float :=
  if places ≤ 308 then x / Float.ofScientific 1 false places
  else if x == 0.0 then x
  else divideByPower (x / 1e308) (places - 308)
termination_by places

/-- The value of gathered digits, computed by one multiplication or division. It is refused
where it is too large. -/
def Gathered.value? (g : Gathered) : Option Float :=
  let x := Float.ofNat g.word
  if g.exponent < 0 then some (divideByPower x g.exponent.natAbs)
  else if 308 < g.exponent then if g.word = 0 then some x else none
  else
    let product := x * Float.ofScientific 1 false g.exponent.toNat
    if product.isInf then none else some product

/-- The number with the digits `whole`, after the point `fraction`, and the exponent. -/
def storedFloat? (whole fraction : List Char) (exponent : Int) : Option Float :=
  let g := whole.foldl Gathered.whole ⟨0, 0, false⟩
  let g := fraction.foldl Gathered.fraction { g with full := false }
  let limit : Int := Nat.pow 2 31 - 1
  if limit < exponent.natAbs then
    if g.word ≠ 0 && 0 < exponent then none else some 0.0
  else { g with exponent := g.exponent + exponent }.value?

end WidgetSchema.Decimal
