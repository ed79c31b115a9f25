/-!
Decimal fractions as doubles. A fraction is a natural number times a power of ten; it is rounded
once, to the nearest double. Exponents far out of range are settled first, so that no huge power
is ever computed.
-/
namespace PirFrontend.Decimal

/-- How many decimal digits a natural number has, none for zero. -/
def length (n : Nat) : Nat :=
  if n = 0 then 0 else length (n / 10) + 1
termination_by n
decreasing_by exact Nat.div_lt_self (by omega) (by omega)

/-- The double nearest to `m * 10 ^ e`. From `10 ^ 310` on every value is infinite, and below
`10 ^ (-330)` every value is zero. -/
def toFloat (m : Nat) (e : Int) : Float :=
  -- The leading digit stands at `10 ^ (size + e - 1)`.
  let size : Int := length m
  if m = 0 ∨ size + e < -330 then 0.0
  else if 310 < e then 1.0 / 0.0
  else if 0 ≤ e then Float.ofScientific m false e.toNat
  else Float.ofScientific m true (-e).toNat

end PirFrontend.Decimal
