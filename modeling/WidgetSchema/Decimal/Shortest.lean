-- The fewest digits that tell a floating-point number from its neighbours. A number
-- m · 2^q stands for every real number that rounds to it; of the decimals in that
-- interval the ones with the fewest digits are taken, and of those the nearest.
namespace WidgetSchema.Decimal

/-- The decimal `digits · 10^exponent`. -/
structure Scaled where
  digits : Nat
  exponent : Int
  deriving DecidableEq

/-- Which of two equally near decimals is taken. -/
inductive Tie where
  | even
  | up
  deriving DecidableEq

def isNegative (x : Float) : Bool := x.toBits.toNat / Nat.pow 2 63 == 1

/-- The magnitude of a finite number as `m · 2^q`. -/
def magnitude (x : Float) : Nat × Int :=
  let bits : Nat := x.toBits.toNat
  let field : Nat := bits / Nat.pow 2 52 % Nat.pow 2 11
  let fraction : Nat := bits % Nat.pow 2 52
  if field = 0 then (fraction, -1074) else (fraction + Nat.pow 2 52, (field : Int) - 1075)

def digitCount (n : Nat) : Nat := (Nat.toDigits 10 n).length

/-- The power of ten at the first digit of a positive fraction. -/
def leadingPower (num den : Nat) : Int :=
  if den ≤ num then (digitCount (num / den) : Int) - 1
  else
    let d := digitCount (den / num)
    if num * Nat.pow 10 (d - 1) < den then -(d : Int) else -((d - 1 : Nat) : Int)

/-- The reals that round to a number, as fractions over one denominator: the two ends, the
number itself, and whether the ends belong to it. -/
structure Interval where
  low : Nat
  value : Nat
  high : Nat
  den : Nat
  closed : Bool

/-- The interval of `m · 2^q`. Below a power of two the neighbours lie closer together. -/
def Interval.ofBinary (m : Nat) (q : Int) : Interval :=
  let gap := if m = Nat.pow 2 52 && q != -1074 then 1 else 2
  let up := Nat.pow 2 (q - 2).toNat
  let down := Nat.pow 2 (2 - q).toNat
  { low := (4 * m - gap) * up, value := 4 * m * up, high := (4 * m + 2) * up, den := down,
    closed := m % 2 == 0 }

/-- The decimal of `n` digits that lies in the interval and nearest to the value. -/
def Interval.withDigits? (i : Interval) (tie : Tie) (n : Nat) : Option Scaled :=
  let unit := leadingPower i.value i.den - n + 1
  let up := Nat.pow 10 unit.toNat * i.den
  let down := Nat.pow 10 (-unit).toNat
  let floor := i.value * down / up
  let inside (c : Nat) : Bool :=
    if i.closed then i.low * down ≤ c * up && c * up ≤ i.high * down
    else i.low * down < c * up && c * up < i.high * down
  let below := i.value * down - floor * up
  let above := (floor + 1) * up - i.value * down
  let takeFloor : Bool :=
    if below = above then tie == .even && floor % 2 == 0 else below < above
  match inside floor, inside (floor + 1) with
  | true, true => some ⟨if takeFloor then floor else floor + 1, unit⟩
  | true, false => some ⟨floor, unit⟩
  | false, true => some ⟨floor + 1, unit⟩
  | false, false => none

/-- The same decimal without zeros at the end of its digits. -/
def Scaled.stripZeros (d : Scaled) : Scaled :=
  if d.digits ≠ 0 ∧ d.digits % 10 = 0 then stripZeros ⟨d.digits / 10, d.exponent + 1⟩ else d
termination_by d.digits
decreasing_by omega

/-- The shortest decimal of a positive number `m · 2^q`. Seventeen digits always suffice. -/
def shortest (tie : Tie) (m : Nat) (q : Int) : Scaled :=
  let interval := Interval.ofBinary m q
  (((List.range' 1 17).findSome? (interval.withDigits? tie)).getD ⟨0, 0⟩).stripZeros

end WidgetSchema.Decimal
