import PirFrontend.Code.Instruction

/-!
Calls and returns, and the statements of a subroutine: instructions and invocations.
-/
namespace PirFrontend

/-- A value passed to a call or a return. -/
structure Argument where
  value : Expression
  flags : FlagSet ArgFlag
  /-- The name it is passed under. -/
  namedAs : Option String

namespace Argument

/-- An argument passed by its place. -/
def positional (value : Expression) : Argument := ⟨value, .empty, none⟩

def named (name : String) (value : Expression) : Argument := ⟨value, .single .named, some name⟩

end Argument

/-- What an invocation does. -/
inductive CallKind where
  /-- Calls a subroutine. -/
  | pcc
  /-- Calls a native function. -/
  | nci
  /-- Calls a method of an object. -/
  | method
  /-- Calls a subroutine in place of the running one. -/
  | tailcall
  /-- Calls a method in place of the running subroutine. -/
  | methodTailcall
  /-- Returns values. -/
  | returnValues
  /-- Hands over values and waits to be resumed. -/
  | yieldValues
  deriving DecidableEq, Repr

/-- A call, a return or a yield. -/
structure Invocation where
  kind : CallKind
  /-- What is called, or the object whose method is. -/
  callee : Option Expression
  method : Option Expression
  /-- Where the called subroutine returns to. -/
  retcont : Option Target
  arguments : List Argument
  results : List Target
  label : Option String

namespace Invocation

def empty (kind : CallKind) : Invocation := ⟨kind, none, none, none, [], [], none⟩

/-- A call of a subroutine. -/
def subCall (callee : Expression) (arguments : List Argument) : Invocation :=
  { empty .pcc with callee := some callee, arguments }

/-- A call of a method. -/
def methodCall (invocant : Target) (method : Expression) (arguments : List Argument) :
    Invocation :=
  { empty .method with callee := some (.target invocant), method := some method, arguments }

end Invocation

/-- A statement of a subroutine. -/
inductive Statement where
  | instruction (i : Instruction)
  | invocation (i : Invocation)

namespace Statement

/-- The label of the statement. -/
def label : Statement → Option String
  | instruction i => i.label
  | invocation i => i.label

/-- The statement under another label. -/
def withLabel (s : Statement) (label : String) : Statement :=
  match s with
  | instruction i => instruction { i with label := some label }
  | invocation i => invocation { i with label := some label }

/-- The statement under a label, if there is one to put on it. -/
def labelled (s : Statement) : Option String → Statement
  | some label => s.withLabel label
  | none => s

/-- The instruction, if the statement is one. -/
def asInstruction? : Statement → Option Instruction
  | instruction i => some i
  | invocation _ => none

end Statement
end PirFrontend
