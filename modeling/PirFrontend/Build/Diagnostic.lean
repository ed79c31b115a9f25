import PirFrontend.Code.Symbol
import PirFrontend.Value.Fold

/-!
Problems that are reported while building goes on, and the failures that end it.
-/
namespace PirFrontend

/-- The kinds of problems. -/
inductive DiagnosticKind where
  | malformed | duplicateSymbol | undeclaredSymbol | typeMismatch | unsupportedOperator
  | divisionByZero | unknownOpcode | duplicateLabel
  deriving DecidableEq, Repr

/-- A reported problem and its line. -/
structure Diagnostic where
  kind : DiagnosticKind
  message : String
  line : Nat
  deriving DecidableEq, Repr

def Diagnostic.render (d : Diagnostic) : String := s!"line {d.line}: {d.message}"

/-- What ends the building. -/
inductive Fatal where
  /-- More problems than are tolerated, and how many there are. -/
  | tooManyErrors (count : Nat)
  /-- An action was asked for out of its place. -/
  | internal (reason : String)
  deriving DecidableEq, Repr

def Fatal.message : Fatal → String
  | tooManyErrors count => s!"too many errors ({count}), compilation aborted"
  | internal reason => s!"internal error: {reason}"

/-- The problems that building itself finds. -/
inductive Problem where
  | duplicateConstant (name : String)
  | duplicateSymbol (e : DuplicateSymbol)
  | duplicateLabel (name : String)
  | undeclaredSymbol (name : String)
  | undeclaredIndexed (name : String)
  | undeclaredInvocant (name : String)
  | undeclaredMethod (name : String)
  | undeclaredLexical (name : String)
  | undeclaredSource (name : String)
  | indexedNotPmc (name : String)
  | invocantNotPmc (name : String)
  | lexicalNotPmc (name : String)
  | methodNotPmcOrString (name : String)
  | unknownInstruction (opcode : String)
  | unknownOperation (opcode : String)
  | arithmetic (e : FoldError)
  | blockWithoutBegin
  | blockWithoutTarget
  deriving DecidableEq, Repr

namespace Problem

def kind : Problem → DiagnosticKind
  | duplicateConstant _ | duplicateSymbol _ => .duplicateSymbol
  | duplicateLabel _ => .duplicateLabel
  | undeclaredSymbol _ | undeclaredIndexed _ | undeclaredInvocant _ | undeclaredMethod _
  | undeclaredLexical _ | undeclaredSource _ => .undeclaredSymbol
  | indexedNotPmc _ | invocantNotPmc _ | lexicalNotPmc _ | methodNotPmcOrString _ => .typeMismatch
  | unknownInstruction _ | unknownOperation _ => .unknownOpcode
  | arithmetic .divisionByZero => .divisionByZero
  | arithmetic (.unsupported ..) => .unsupportedOperator
  | blockWithoutBegin | blockWithoutTarget => .malformed

def message : Problem → String
  | duplicateConstant name => s!"constant '{name}' is already declared"
  | duplicateSymbol e => e.message
  | duplicateLabel name => s!"label '{name}' is already defined"
  | undeclaredSymbol name => s!"symbol '{name}' not declared"
  | undeclaredIndexed name => s!"indexed object '{name}' not declared"
  | undeclaredInvocant name => s!"object '{name}' not declared"
  | undeclaredMethod name => s!"method identifier '{name}' not declared"
  | undeclaredLexical name => s!"lexical '{name}' is not declared"
  | undeclaredSource name => s!"'{name}' is neither a declared symbol nor a parrot opcode"
  | indexedNotPmc name => s!"indexed object '{name}' is not of type 'pmc'"
  | invocantNotPmc name => s!"cannot invoke method: '{name}' is not of type 'pmc'"
  | lexicalNotPmc name => s!"lexical '{name}' must be of type 'pmc'"
  | methodNotPmcOrString name => s!"method '{name}' must be of type 'pmc' or 'string'"
  | unknownInstruction opcode => s!"'{opcode}' is not a parrot instruction"
  | unknownOperation opcode => s!"'{opcode}' is not a parrot op"
  | arithmetic e => e.message
  | blockWithoutBegin => "end of call block without a matching begin"
  | blockWithoutTarget => "call block has no '.call', '.nci_call', or '.meth_call'"

end Problem
end PirFrontend
