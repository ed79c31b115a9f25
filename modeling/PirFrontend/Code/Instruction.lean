import PirFrontend.Code.Expression

/-!
Instructions: an opcode with its operands, perhaps under a label.
-/
namespace PirFrontend

/-- One instruction. -/
structure Instruction where
  label : Option String
  opcode : String
  operands : List Expression

namespace Instruction

/-- An instruction without a label. -/
def of (opcode : String) (operands : List Expression) : Instruction := ⟨none, opcode, operands⟩

/-- The instruction with one more operand. -/
def push (i : Instruction) (operand : Expression) : Instruction :=
  { i with operands := i.operands ++ [operand] }

/-- The instruction without the operand at a place. -/
def remove (i : Instruction) (place : Nat) : Instruction :=
  { i with operands := i.operands.eraseIdx place }

/-- The labels among the operands. -/
def labels (i : Instruction) : List String := i.operands.filterMap Expression.asLabel?

def render (i : Instruction) : String :=
  let front := match i.label with
    | some l => l ++ ": "
    | none => ""
  let operands := match i.operands with
    | [] => ""
    | es => " " ++ ", ".intercalate (es.map Expression.render)
  front ++ i.opcode ++ operands

end Instruction
end PirFrontend
