import PirFrontend.Code.Instruction
import PirFrontend.Value.Operation

/-!
Conditional branches. `unless` jumps where `if` does not; a condition whose value is known
becomes a plain branch or nothing.
-/
namespace PirFrontend

/-- The word that introduces a condition. -/
inductive Polarity where
  /-- `if` jumps when the condition holds. -/
  | positive
  /-- `unless` jumps when it does not. -/
  | negative
  deriving DecidableEq, Repr

/-- What is known of a condition while compiling. -/
inductive Condition where
  | runtime
  | known (value : Bool)
  deriving DecidableEq, Repr

namespace Polarity

/-- Whether the branch is taken when the condition has this value. -/
def takes (p : Polarity) (value : Bool) : Bool :=
  match p with
  | positive => value
  | negative => !value

/-- The branch on a known condition. -/
def constantBranch (p : Polarity) (value : Bool) (label : String) : Instruction :=
  if p.takes value then .of "branch" [.label label] else .of "noop" []

/-- The opcode that tests one operand, for truth or for being null. -/
def testOpcode (p : Polarity) (nullCheck : Bool) : String :=
  match p, nullCheck with
  | positive, false => "if"
  | negative, false => "unless"
  | positive, true => "if_null"
  | negative, true => "unless_null"

/-- The branch on a target. -/
def variableBranch (p : Polarity) (nullCheck : Bool) (t : Target) (label : String) : Instruction :=
  .of (p.testOpcode nullCheck) [.target t, .label label]

/-- The comparison that the branch tests. -/
def relation (p : Polarity) (op : RelOp) : RelOp :=
  match p with
  | positive => op
  | negative => op.inverted

/-- The branch on a comparison. -/
def relationalBranch (p : Polarity) (op : RelOp) (left right : Expression) (label : String) :
    Instruction :=
  .of (p.relation op).opcode [left, right, .label label]

end Polarity
end PirFrontend
