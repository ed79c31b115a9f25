import PirFrontend.Build.Builder

/-!
What names stand for. A declared symbol comes first, then a constant. Where neither is found and
one is needed, the name is reported and a stand-in takes its place.
-/
namespace PirFrontend

/-- A name among the operands of an opcode; if it is neither a symbol nor a constant, it is a
label. -/
def Builder.identifierOperand (b : Builder) (name : String) : Expression :=
  match b.lookup name with
  | some s => .target (.ofSymbol s)
  | none =>
    match b.lookupConstant name with
    | some c => .constant c
    | none => .label name

namespace Build

/-- Reports an undeclared name and gives a stand-in of some type for it. -/
def undeclared (name : String) (type : ValueType) (p : Problem) : Build Target := do
  complain p
  pure (.ofSymbol (.placeholder name type))

/-- A declared symbol. -/
def symbolTarget (name : String) : Build Target := do
  match (← get).lookup name with
  | some s => pure (.ofSymbol s)
  | none => undeclared name .unknown (.undeclaredSymbol name)

/-- A name as a value: a symbol or a constant. -/
def identifierValue (name : String) : Build Expression := do
  let b ← get
  match b.lookup name, b.lookupConstant name with
  | none, some c => pure (.constant c)
  | _, _ => return .target (← symbolTarget name)

/-- An object that has to be a pmc. Another type is reported and used all the same. -/
def pmcTarget (object : PmcObject) (missing mismatch : String → Problem) : Build Target := do
  match object with
  | .register number => pure (.register .pmc number)
  | .named name =>
    match (← get).lookup name with
    | none => undeclared name .pmc (missing name)
    | some s =>
      if s.type = .pmc then pure (.ofSymbol s)
      else
        complain (mismatch name)
        pure (.ofSymbol s)

/-- An object with an index. -/
def indexedTarget (object : PmcObject) (key : Key) : Build Target := do
  let t ← pmcTarget object .undeclaredIndexed .indexedNotPmc
  pure { t with key := some key }

/-- A subroutine to call, of any type if it is declared. -/
def pmcObject (object : PmcObject) : Build Target := do
  match object with
  | .register number => pure (.register .pmc number)
  | .named name =>
    match (← get).lookup name with
    | some s => pure (.ofSymbol s)
    | none => undeclared name .pmc (.undeclaredSymbol name)

/-- The object of a method call. -/
def invocantTarget (object : PmcObject) : Build Target :=
  pmcTarget object .undeclaredInvocant .invocantNotPmc

/-- A method given by a name, which has to be a pmc or a string. -/
def methodTarget (name : String) : Build Expression := do
  match (← get).lookup name with
  | none => return .target (← undeclared name .pmc (.undeclaredMethod name))
  | some s =>
    if s.type = .pmc ∨ s.type = .string then pure (.target (.ofSymbol s))
    else
      complain (.methodNotPmcOrString name)
      pure (.target (.ofSymbol s))

end Build
end PirFrontend
