import PirFrontend.Decimal.Written
import PirFrontend.Text.Escape
import PirFrontend.Value.ValueType

/-!
Constants: values known while compiling, some of them under a declared name.
-/
namespace PirFrontend

/-- A value known while compiling. A pmc constant is given by a text. -/
inductive ConstantValue where
  | int (value : Int64)
  | num (value : Float)
  | string (text : String)
  | pmc (text : String)

namespace ConstantValue

def type : ConstantValue → ValueType
  | int _ => .int
  | num _ => .num
  | string _ => .string
  | pmc _ => .pmc

def render : ConstantValue → String
  | int v =>
    let n := v.toInt
    String.ofList ((if n < 0 then ['-'] else []) ++ Text.digits 10 n.natAbs)
  | num v => String.ofList (Decimal.numStyle.write v)
  | string s => Text.quoted s
  | pmc s => Text.quoted s

/-- Whether two values are equal. Nums compare as nums: an undefined one differs from itself, and
the two zeros are equal. -/
def same : ConstantValue → ConstantValue → Bool
  | int a, int b => a == b
  | num a, num b => a == b
  | string a, string b => a == b
  | pmc a, pmc b => a == b
  | _, _ => false

end ConstantValue

/-- A constant. Literals and computed values have no name. -/
structure Constant where
  name : Option String
  value : ConstantValue

/-- An int as a num, rounded to the nearest. -/
def widen (n : Int64) : Float := Float.ofInt n.toInt

namespace Constant

def ofValue (value : ConstantValue) : Constant := ⟨none, value⟩

def named (name : String) (value : ConstantValue) : Constant := ⟨some name, value⟩

def type (c : Constant) : ValueType := c.value.type

/-- The constant as written in an instruction, where its name does not appear. -/
def render (c : Constant) : String := c.value.render

/-- Whether two constants have the same name and equal values. -/
def same (a b : Constant) : Bool := a.name == b.name && a.value.same b.value

/-- An int or a num as a num. -/
def asNum? (c : Constant) : Option Float :=
  match c.value with
  | .int v => some (widen v)
  | .num v => some v
  | _ => none

/-- Whether the constant is an int or a num equal to `n`. -/
def numericEquals (c : Constant) (n : Int64) : Bool :=
  match c.value with
  | .int v => v == n
  | .num v => v == widen n
  | _ => false

end Constant
end PirFrontend
