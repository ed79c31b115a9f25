import PirFrontend.Value.Constant
import PirFrontend.Value.Operation

/-!
Arithmetic on constants. Two ints, two numbers, or two strings can be combined; a pmc constant
cannot, nor a string with a number. Ints are words of 64 bits and wrap around.
-/
namespace PirFrontend

/-- Why two constants have no value together. -/
inductive FoldError where
  | divisionByZero
  | unsupported (opcode : String) (left right : ValueType)
  deriving DecidableEq, Repr

def FoldError.message : FoldError → String
  | divisionByZero => "cannot divide by 0"
  | unsupported opcode left right =>
    s!"cannot apply binary operator '{opcode}' to types '{left.name}' and '{right.name}'"

namespace Fold

/-- The outcome of an operation: a value, a division by zero, or no meaning for such operands. -/
inductive Outcome where
  | value (v : ConstantValue)
  | divisionByZero
  | unsupported

/-- A truth value as an int. -/
def bit (b : Bool) : Outcome := .value (.int (if b then 1 else 0))

/-- A truth value as a num. -/
def unit (b : Bool) : Outcome := .value (.num (if b then 1.0 else 0.0))

/-- An operation on ints. Both divisions cut off toward zero, a remainder has the sign of the
dividend, and shifts count modulo 64. A power is a num. -/
def ints (a : Int64) (op : BinaryOp) (b : Int64) : Outcome :=
  match op with
  | .add => .value (.int (a + b))
  | .sub => .value (.int (a - b))
  | .mul => .value (.int (a * b))
  | .div | .floorDiv => if b = 0 then .divisionByZero else .value (.int (a / b))
  | .mod => if b = 0 then .divisionByZero else .value (.int (a % b))
  | .pow => .value (.num (Float.pow (widen a) (widen b)))
  | .concat => .unsupported
  | .bitOr => .value (.int (a ||| b))
  | .bitAnd => .value (.int (a &&& b))
  | .bitXor | .xor => .value (.int (a ^^^ b))
  | .shl => .value (.int (a <<< b))
  | .shr => .value (.int (a >>> b))
  -- The only shift that takes the int without its sign.
  | .lsr => .value (.int (a.toUInt64 >>> b.toUInt64).toInt64)
  | .or => bit (a != 0 || b != 0)
  | .and => bit (a != 0 && b != 0)
  | .isEq => bit (a == b)
  | .isLe => bit (decide (a ≤ b))
  | .isLt => bit (decide (a < b))
  | .isGe => bit (decide (b ≤ a))
  | .isGt => bit (decide (b < a))
  | .isNe => bit (a != b)

/-- An operation on nums. Nums have no remainder and no bits. -/
def nums (a : Float) (op : BinaryOp) (b : Float) : Outcome :=
  match op with
  | .add => .value (.num (a + b))
  | .sub => .value (.num (a - b))
  | .mul => .value (.num (a * b))
  | .div => if b == 0.0 then .divisionByZero else .value (.num (a / b))
  | .floorDiv => if b == 0.0 then .divisionByZero else .value (.num (a / b).floor)
  | .pow => .value (.num (Float.pow a b))
  | .or => unit (a != 0.0 || b != 0.0)
  | .and => unit (a != 0.0 && b != 0.0)
  | .isEq => bit (a == b)
  | .isLe => bit (decide (a ≤ b))
  | .isLt => bit (decide (a < b))
  | .isGe => bit (decide (b ≤ a))
  | .isGt => bit (decide (b < a))
  | .isNe => bit (a != b)
  | .mod | .concat | .bitOr | .bitAnd | .bitXor | .xor | .shl | .shr | .lsr => .unsupported

/-- An operation on strings. They are ordered by their code points, as their bytes are. -/
def strings (a : String) (op : BinaryOp) (b : String) : Outcome :=
  match op with
  | .concat => .value (.string (a ++ b))
  | .isEq => bit (a == b)
  | .isLe => bit (!decide (b < a))
  | .isLt => bit (decide (a < b))
  | .isGe => bit (!decide (a < b))
  | .isGt => bit (decide (b < a))
  | .isNe => bit (a != b)
  | _ => .unsupported

/-- An operation on values. An int beside a num is widened. -/
def values : ConstantValue → BinaryOp → ConstantValue → Outcome
  | .int a, op, .int b => ints a op b
  | .int a, op, .num b => nums (widen a) op b
  | .num a, op, .int b => nums a op (widen b)
  | .num a, op, .num b => nums a op b
  | .string a, op, .string b => strings a op b
  | _, _, _ => .unsupported

end Fold

/-- The value of `a op b`, as a constant without a name. -/
def fold (a : Constant) (op : BinaryOp) (b : Constant) : Except FoldError Constant :=
  match Fold.values a.value op b.value with
  | .value v => .ok (.ofValue v)
  | .divisionByZero => .error .divisionByZero
  | .unsupported => .error (.unsupported op.opcode a.type b.type)

/-- How two doubles compare, if neither is undefined. -/
def compareNums (a b : Float) : Option Ordering :=
  if a < b then some .lt else if b < a then some .gt else if a == b then some .eq else none

/-- How two texts compare. -/
def compareTexts (a b : String) : Ordering :=
  if a < b then .lt else if a = b then .eq else .gt

/-- Whether a comparison holds of operands in this order. -/
def RelOp.holds : RelOp → Ordering → Bool
  | .ne, o => o != .eq
  | .eq, o => o == .eq
  | .lt, o => o == .lt
  | .le, o => o != .gt
  | .gt, o => o == .gt
  | .ge, o => o != .lt

/-- The order of two constants: texts as texts, numbers as nums. Outside the two classes there is
none, and an undefined num has no place in the order. -/
def order? (a b : Constant) : Option (Option Ordering) :=
  match a.value, b.value with
  | .string x, .string y => some (some (compareTexts x y))
  -- Ints are compared as nums too, so great ones may count as equal.
  | _, _ =>
    match a.asNum?, b.asNum? with
    | some x, some y => some (compareNums x y)
    | _, _ => none

/-- Whether `a op b` holds. An undefined num is unequal to everything and compares in no other
way. -/
def evaluate (a : Constant) (op : RelOp) (b : Constant) : Except FoldError Bool :=
  match order? a b with
  | some (some o) => .ok (op.holds o)
  | some none => .ok (op == .ne)
  | none => .error (.unsupported op.opcode a.type b.type)

end PirFrontend
