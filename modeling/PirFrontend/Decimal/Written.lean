import PirFrontend.Decimal.Shortest
import PirFrontend.Text.Digits

/-!
How a num is written: the shortest decimal that reads back, always with a point or an exponent.
-/
namespace PirFrontend.Decimal

/-- The choices of a way to write doubles. -/
structure Style where
  /-- The least exponent of the leading digit that is written without an exponent. -/
  leastPlain : Int
  /-- The least exponent above `leastPlain` that needs an exponent again. -/
  leastScaled : Int
  /-- What stands for infinity and for an undefined result. -/
  infinity : List Char
  undefined : List Char

/-- The style of num constants: plain from `0.0001` up to, but not including, `10 ^ 16`. -/
def numStyle : Style := ⟨-4, 16, ['i', 'n', 'f'], ['N', 'a', 'N']⟩

/-- Plain notation; a whole number keeps one zero behind its point. -/
def plain (ds : List Char) (magnitude : Int) : List Char :=
  if magnitude < 0 then
    ['0', '.'] ++ List.replicate (-magnitude - 1).toNat '0' ++ ds
  else
    let whole := magnitude.toNat + 1
    let front := ds.take whole
    let behind := ds.drop whole
    front ++ List.replicate (whole - front.length) '0' ++ ['.'] ++
      if behind.isEmpty then ['0'] else behind

/-- An exponent: a minus sign if it is negative and no padding. -/
def exponent (e : Int) : List Char :=
  if e < 0 then '-' :: Text.digits 10 e.natAbs else Text.digits 10 e.natAbs

/-- Notation with an exponent; the point is left out behind a lone digit. -/
def scaled (ds : List Char) (magnitude : Int) : List Char :=
  match ds with
  | [d] => d :: 'e' :: exponent magnitude
  | d :: rest => d :: '.' :: rest ++ 'e' :: exponent magnitude
  | [] => []

/-- A decimal in the given style. -/
def Style.fraction (s : Style) (f : Fraction) : List Char :=
  let ds := Text.digits 10 f.digits
  let magnitude := f.exponent + ds.length - 1
  if s.leastPlain ≤ magnitude ∧ magnitude < s.leastScaled then plain ds magnitude
  else scaled ds magnitude

/-- The text of a double. Only an undefined result hides its sign. -/
def Style.write (s : Style) (x : Float) : List Char :=
  if x.isNaN then s.undefined
  else
    let negative := Nat.pow 2 63 ≤ x.toBits.toNat
    let magnitude := if negative then -x else x
    let body :=
      if magnitude.isInf then s.infinity
      else if magnitude == 0.0 then ['0', '.', '0']
      else s.fraction (shortest magnitude)
    if negative then '-' :: body else body

end PirFrontend.Decimal
