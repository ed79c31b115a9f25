/-!
Digit strings. `digits` writes a natural number in a base up to sixteen and `value?` reads a
digit string back, refusing the empty string and any character that is no digit of the base.
-/
namespace PirFrontend.Text

/-- The digit `d`, with the letters `a` to `f` from ten on. -/
def digitChar (d : Nat) : Char :=
  if d < 10 then Char.ofNat (48 + d) else Char.ofNat (87 + d)

/-- The value of a digit; letters of either case count from ten. -/
def digitValue? (c : Char) : Option Nat :=
  if '0' ≤ c ∧ c ≤ '9' then some (c.toNat - 48)
  else if 'a' ≤ c ∧ c ≤ 'f' then some (c.toNat - 87)
  else if 'A' ≤ c ∧ c ≤ 'F' then some (c.toNat - 55)
  else none

/-- The digits of `n` in the given base, most significant first and at least one. A base
below two is read as two. -/
def digits (base n : Nat) : List Char :=
  let b := max base 2
  if n < b then [digitChar n] else digits base (n / b) ++ [digitChar (n % b)]
termination_by n
decreasing_by exact Nat.div_lt_self (by omega) (by omega)

/-- Reads on from the value `read` of the digits before. -/
def valueFrom (base : Nat) : Nat → List Char → Option Nat
  | read, [] => some read
  | read, c :: rest =>
    match digitValue? c with
    | some d => if d < base then valueFrom base (read * base + d) rest else none
    | none => none

/-- The number that a non-empty digit string denotes. -/
def value? (base : Nat) : List Char → Option Nat
  | [] => none
  | cs => valueFrom base 0 cs

end PirFrontend.Text
