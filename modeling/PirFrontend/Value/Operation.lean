import PirFrontend.Token.Operator

/-!
The operations of expressions and conditions: their opcode names, and the operators that stand
for them in a source text.
-/
namespace PirFrontend

/-- An operation on two operands. -/
inductive BinaryOp where
  | add | sub | mul | div | mod | pow | floorDiv | concat | bitOr | bitAnd | bitXor | xor | shl
  | shr | lsr | or | and | isEq | isLe | isLt | isGe | isGt | isNe
  deriving DecidableEq, Repr

namespace BinaryOp

/-- The opcode that performs the operation. -/
def opcode : BinaryOp → String
  | add => "add"
  | sub => "sub"
  | mul => "mul"
  | div => "div"
  | mod => "mod"
  | pow => "pow"
  | floorDiv => "fdiv"
  | concat => "concat"
  | bitOr => "bor"
  | bitAnd => "band"
  | bitXor => "bxor"
  | xor => "xor"
  | shl => "shl"
  | shr => "shr"
  | lsr => "lsr"
  | or => "or"
  | and => "and"
  | isEq => "iseq"
  | isLe => "isle"
  | isLt => "islt"
  | isGe => "isge"
  | isGt => "isgt"
  | isNe => "isne"

def all : List BinaryOp :=
  [add, sub, mul, div, mod, pow, floorDiv, concat, bitOr, bitAnd, bitXor, xor, shl, shr, lsr, or,
   and, isEq, isLe, isLt, isGe, isGt, isNe]

def ofOpcode? (name : String) : Option BinaryOp := all.find? (·.opcode == name)

/-- Whether the operation is a comparison. -/
def isRelational : BinaryOp → Bool
  | isEq | isLe | isLt | isGe | isGt | isNe => true
  | _ => false

/-- The operation of an operator between two operands. -/
def ofInfix? : Operator → Option BinaryOp
  | .plus => some add
  | .minus => some sub
  | .slash => some div
  | .star => some mul
  | .percent => some mod
  | .pipe => some bitOr
  | .amp => some bitAnd
  | .tilde => some bitXor
  | .starStar => some pow
  | .dot => some concat
  | .shiftRightUnsigned => some lsr
  | .shiftRight => some shr
  | .shiftLeft => some shl
  | .pipePipe => some or
  | .ampAmp => some and
  | .slashSlash => some floorDiv
  | .tildeTilde => some xor
  | .equalEqual => some isEq
  | .lessEqual => some isLe
  | .less => some isLt
  | .greaterEqual => some isGe
  | .greater => some isGt
  | .notEqual => some isNe
  | _ => none

/-- The operation of an operator that also assigns, such as `+=`. -/
def ofAugmented? : Operator → Option BinaryOp
  | .plusAssign => some add
  | .minusAssign => some sub
  | .starAssign => some mul
  | .percentAssign => some mod
  | .starStarAssign => some pow
  | .slashAssign => some div
  | .slashSlashAssign => some floorDiv
  | .pipeAssign => some bitOr
  | .ampAssign => some bitAnd
  | .tildeAssign => some bitXor
  | .dotAssign => some concat
  | .shiftRightAssign => some shr
  | .shiftLeftAssign => some shl
  | .shiftRightUnsignedAssign => some lsr
  | _ => none

end BinaryOp

/-- A comparison that decides a branch. -/
inductive RelOp where
  | ne | eq | lt | le | gt | ge
  deriving DecidableEq, Repr

namespace RelOp

/-- The opcode that branches on the comparison. -/
def opcode : RelOp → String
  | ne => "ne"
  | eq => "eq"
  | lt => "lt"
  | le => "le"
  | gt => "gt"
  | ge => "ge"

def all : List RelOp := [ne, eq, lt, le, gt, ge]

def ofOpcode? (name : String) : Option RelOp := all.find? (·.opcode == name)

/-- The comparison that holds where this one fails. -/
def inverted : RelOp → RelOp
  | ne => eq
  | eq => ne
  | lt => ge
  | ge => lt
  | le => gt
  | gt => le

/-- The comparison that an operator stands for in a condition. -/
def ofOperator? : Operator → Option RelOp
  | .notEqual => some ne
  | .equalEqual => some eq
  | .less => some lt
  | .lessEqual => some le
  | .greater => some gt
  | .greaterEqual => some ge
  | _ => none

end RelOp

/-- An operation on one operand. -/
inductive UnaryOp where
  | neg | not | bitNot
  deriving DecidableEq, Repr

namespace UnaryOp

/-- The opcode that performs the operation. -/
def opcode : UnaryOp → String
  | neg => "neg"
  | not => "not"
  | bitNot => "bnot"

def all : List UnaryOp := [neg, not, bitNot]

def ofOpcode? (name : String) : Option UnaryOp := all.find? (·.opcode == name)

/-- The operation of an operator in front of its operand. -/
def ofOperator? : Operator → Option UnaryOp
  | .minus => some neg
  | .bang => some not
  | .tilde => some bitNot
  | _ => none

end UnaryOp
end PirFrontend
