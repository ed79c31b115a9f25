import PirFrontend.Code.Instruction

/-!
Cheaper forms of arithmetic instructions. `op D, D, S` becomes `op D, S`; and a number that
changes nothing, or changes little, as the only source gives a simpler instruction:

* `add D, 0`, `sub D, 0`, `mul D, 1`, `div D, 1` and `fdiv D, 1` become `noop`;
* `add D, 1` becomes `inc D` and `sub D, 1` becomes `dec D`;
* `mul D, 0` becomes `null D`.
-/
namespace PirFrontend

/-- What became of an instruction. -/
inductive Reduction where
  | unchanged | reduced | divisionByZero
  deriving DecidableEq, Repr

/-- What an instruction with one constant source turns into. -/
inductive Simplification where
  | noop
  /-- The opcode that acts on the destination alone. -/
  | destination (opcode : String)
  | divisionByZero
  deriving DecidableEq, Repr

/-- The rule for an opcode with a source that is equal to zero or to one. -/
def Simplification.find? (opcode : String) (zero one : Bool) : Option Simplification :=
  match opcode with
  | "add" => if zero then some .noop else if one then some (.destination "inc") else none
  | "sub" => if zero then some .noop else if one then some (.destination "dec") else none
  | "mul" => if zero then some (.destination "null") else if one then some .noop else none
  | "div" | "fdiv" => if one then some .noop else if zero then some .divisionByZero else none
  | _ => none

namespace Instruction

/-- The opcodes that have cheaper forms. -/
def reducible : List String := ["add", "sub", "mul", "div", "fdiv"]

/-- The operands without a first source that repeats the destination, if there is another. -/
def dropRepeated? : List Expression → Option (List Expression)
  | .target d :: .target s :: e :: rest => if d.same s then some (.target d :: e :: rest) else none
  | _ => none

/-- The instruction after its repeated source is gone, simplified by the rule for its constant
source, if it has one. `r` says whether anything happened before. -/
def simplify (r : Reduction) (i : Instruction) : Reduction × Instruction :=
  match i.operands with
  | [d, .constant c] =>
    match Simplification.find? i.opcode (c.numericEquals 0) (c.numericEquals 1) with
    | some .noop => (.reduced, { i with opcode := "noop", operands := [] })
    | some (.destination opcode) => (.reduced, { i with opcode, operands := [d] })
    | some .divisionByZero => (.divisionByZero, i)
    | none => (r, i)
  | _ => (r, i)

/-- Puts an instruction into its cheaper form. A division by zero is left as it is, apart
from a repeated source. -/
def reduce (i : Instruction) : Reduction × Instruction :=
  if i.opcode ∈ reducible then
    -- Only one repetition is dropped, and only then the constant source is looked at.
    match dropRepeated? i.operands with
    | some operands => simplify .reduced { i with operands }
    | none => simplify .unchanged i
  else (.unchanged, i)

end Instruction
end PirFrontend
