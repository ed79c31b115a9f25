import PirFrontend.Code.Invocation
import PirFrontend.Code.Table

/-!
Subroutines and the unit that holds them.
-/
namespace PirFrontend

/-- A declared parameter. Its flags are those of its target. -/
structure Parameter where
  target : Target
  /-- The type that `:invocant` names. -/
  invocantType : Option String

/-- A target bound to a lexical name. -/
structure Lexical where
  name : String
  target : Target

/-- A subroutine. A label is entered with the index of the statement it stands before; behind the
last statement that index is their number. -/
structure Subroutine where
  name : String
  flags : FlagSet SubFlag
  outer : Option String
  vtable : Option String
  lexid : Option String
  instanceof : Option String
  /-- The namespace in force where the subroutine begins. -/
  namespaceKey : Option Key
  parameters : List Parameter
  lexicals : List Lexical
  constants : Table Constant
  statements : List Statement
  labels : Table Nat
  symbols : SymbolTable

namespace Subroutine

def empty (name : String) : Subroutine :=
  ⟨name, .empty, none, none, none, none, none, [], [], .empty, [], .empty, .empty⟩

/-- The instructions of the body, without the invocations. -/
def instructions (s : Subroutine) : List Instruction :=
  s.statements.filterMap Statement.asInstruction?

/-- The index of the statement that a label stands before. -/
def labelIndex? (s : Subroutine) (label : String) : Option Nat := s.labels.get? label

end Subroutine

/-- All that is built from one source text. -/
structure CompilationUnit where
  /-- The closed subroutines, in source order. -/
  subroutines : List Subroutine
  globalConstants : Table Constant
  /-- The constants declared outside every subroutine. -/
  constants : Table Constant
  /-- The namespace in force. -/
  namespaceKey : Option Key
  hll : Option String
  hllMap : Table String
  libraries : List String

namespace CompilationUnit

def empty : CompilationUnit := ⟨[], .empty, .empty, none, none, .empty, []⟩

/-- The subroutine with an id: they are counted from zero as they are opened. -/
def subroutine? (u : CompilationUnit) (id : Nat) : Option Subroutine := u.subroutines[id]?

/-- The first subroutine with a name. -/
def findSubroutine? (u : CompilationUnit) (name : String) : Option Subroutine :=
  u.subroutines.find? (·.name == name)

/-- The place of the first subroutine with a name. -/
def findSubroutineIndex? (u : CompilationUnit) (name : String) : Option Nat :=
  u.subroutines.findIdx? (·.name == name)

end CompilationUnit
end PirFrontend
