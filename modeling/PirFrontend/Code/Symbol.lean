import PirFrontend.Value.ValueType

/-!
Declared names. A symbol table gives each name a register of its type; the registers of each type
are numbered from zero in the order of declaration.
-/
namespace PirFrontend

/-- A declared name. Only stand-ins for undeclared names lack a register. -/
structure Symbol where
  name : String
  type : ValueType
  register : Option Nat
  uniqueReg : Bool
  deriving DecidableEq, Repr

namespace Symbol

/-- A stand-in for a name that was not declared. It belongs to no table. -/
def placeholder (name : String) (type : ValueType) : Symbol := ⟨name, type, none, false⟩

def isPlaceholder (s : Symbol) : Bool := s.register.isNone

end Symbol

/-- How many registers of each type are taken. -/
structure RegisterCount where
  int : Nat
  num : Nat
  string : Nat
  pmc : Nat
  unknown : Nat
  deriving DecidableEq, Repr

namespace RegisterCount

def zero : RegisterCount := ⟨0, 0, 0, 0, 0⟩

/-- The registers taken of one type, which is also the number of the next one. -/
def of (n : RegisterCount) : ValueType → Nat
  | .int => n.int
  | .num => n.num
  | .string => n.string
  | .pmc => n.pmc
  | .unknown => n.unknown

/-- One more register of a type. -/
def bump (n : RegisterCount) : ValueType → RegisterCount
  | .int => { n with int := n.int + 1 }
  | .num => { n with num := n.num + 1 }
  | .string => { n with string := n.string + 1 }
  | .pmc => { n with pmc := n.pmc + 1 }
  | .unknown => { n with unknown := n.unknown + 1 }

end RegisterCount

/-- A name declared twice, with the type of its first declaration. -/
structure DuplicateSymbol where
  name : String
  existing : ValueType
  deriving DecidableEq, Repr

def DuplicateSymbol.message (e : DuplicateSymbol) : String :=
  s!"symbol '{e.name}' is already declared"

/-- The names declared in one subroutine, in order, and the registers they take. -/
structure SymbolTable where
  symbols : List Symbol
  count : RegisterCount
  deriving DecidableEq, Repr

namespace SymbolTable

def empty : SymbolTable := ⟨[], .zero⟩

/-- The symbol with a name. -/
def lookup (t : SymbolTable) (name : String) : Option Symbol :=
  t.symbols.find? (·.name == name)

/-- Declares a name and gives it the next register of its type. A second declaration fails and
the first one stays. -/
def declare (t : SymbolTable) (name : String) (type : ValueType) (uniqueReg : Bool) :
    Except DuplicateSymbol (Symbol × SymbolTable) :=
  match t.lookup name with
  | some s => .error ⟨name, s.type⟩
  | none =>
    let s : Symbol := ⟨name, type, some (t.count.of type), uniqueReg⟩
    .ok (s, ⟨t.symbols ++ [s], t.count.bump type⟩)

end SymbolTable
end PirFrontend
