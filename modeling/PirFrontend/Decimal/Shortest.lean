import PirFrontend.Decimal.Read

/-!
The shortest decimal of a double. Among the decimals that round to a given positive double we
take one with the fewest digits, and of those the nearest to the double. All arithmetic is exact,
on natural numbers.
-/
namespace PirFrontend.Decimal

/-- A positive double as a multiple of a power of two, `mantissa * 2 ^ exponent`. The gap to the
double below it is half the gap above it when `narrow` holds. -/
structure Binary where
  mantissa : Nat
  exponent : Int
  narrow : Bool

/-- The parts of a positive finite double. -/
def Binary.ofFloat (x : Float) : Binary :=
  let bits := x.toBits.toNat
  let field : Nat := bits / Nat.pow 2 52 % Nat.pow 2 11
  let fraction : Nat := bits % Nat.pow 2 52
  if field = 0 then ⟨fraction, -1074, false⟩
  else ⟨Nat.pow 2 52 + fraction, (field : Int) - 1075, fraction == 0 && field != 1⟩

/-- A decimal `digits * 10 ^ exponent`. -/
structure Fraction where
  digits : Nat
  exponent : Int

/-- A range of positive rationals over one denominator, and a value in it. The ends belong to the
range when `closed` holds. -/
structure Interval where
  low : Nat
  value : Nat
  high : Nat
  denominator : Nat
  closed : Bool

/-- The rationals that round to a double. Ends are ties, which go to the even mantissa. -/
def Binary.interval (b : Binary) : Interval :=
  -- The unit is a quarter of the gap above, so every end is a whole number of units.
  let low := if b.narrow then 4 * b.mantissa - 1 else 4 * b.mantissa - 2
  let high := 4 * b.mantissa + 2
  let e := b.exponent - 2
  let up := Nat.pow 2 e.toNat
  ⟨low * up, 4 * b.mantissa * up, high * up, Nat.pow 2 (-e).toNat, b.mantissa % 2 == 0⟩

namespace Interval

/-- The interval with its unit changed to `10 ^ k`. -/
def scale (i : Interval) (k : Int) : Interval :=
  let up := Nat.pow 10 (-k).toNat
  ⟨i.low * up, i.value * up, i.high * up, i.denominator * Nat.pow 10 k.toNat, i.closed⟩

/-- Whether a whole number lies in the interval. -/
def holds (i : Interval) (n : Nat) : Bool :=
  let m := n * i.denominator
  if i.closed then i.low ≤ m && m ≤ i.high else i.low < m && m < i.high

/-- The whole number in the interval that is nearest to its value, if one of the two neighbours
of the value lies in it. Half way between them the greater one is taken. -/
def nearest? (i : Interval) : Option Nat :=
  let below := i.value / i.denominator
  let above := below + 1
  let left := i.value - below * i.denominator
  let right := above * i.denominator - i.value
  match i.holds below, i.holds above with
  | true, true => some (if left < right then below else above)
  | true, false => some below
  | false, true => some above
  | false, false => none

/-- The exponent of the leading decimal digit of the value. -/
def magnitude (i : Interval) : Int :=
  let guess : Int := (length i.value : Int) - length i.denominator
  -- The guess is right or one too large, as lengths are off by less than one digit.
  let j := i.scale guess
  if j.denominator ≤ j.value then guess else guess - 1

/-- The first grid with a number in the interval, going to finer grids. Seventeen digits always
suffice for a double; past the last grid the value is cut off. -/
def search (i : Interval) : Nat → Int → Fraction
  | 0, k => ⟨(i.scale k).value / (i.scale k).denominator, k⟩
  | left + 1, k =>
    match (i.scale k).nearest? with
    | some n => ⟨n, k⟩
    | none => search i left (k - 1)

end Interval

/-- Drops zeros at the end of the digits. -/
def Fraction.trim (f : Fraction) : Fraction :=
  if 0 < f.digits ∧ f.digits % 10 = 0 then trim ⟨f.digits / 10, f.exponent + 1⟩ else f
termination_by f.digits
decreasing_by exact Nat.div_lt_self (by omega) (by omega)

/-- The shortest decimal that reads back as the positive finite double `x`. -/
def shortest (x : Float) : Fraction :=
  let i := (Binary.ofFloat x).interval
  (i.search 17 i.magnitude).trim

end PirFrontend.Decimal
