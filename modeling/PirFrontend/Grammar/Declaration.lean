import PirFrontend.Build.Declaration
import PirFrontend.Grammar.Invocation

/-!
Declarations of constants, parameters, locals and lexicals.
-/
namespace PirFrontend.Parser

def type : Parser ValueType := do
  match ← peekKind 0 with
  | some (.keyword k) =>
    match ValueType.ofKeyword? k with
    | some t =>
      let _ ← advance
      pure t
    | none => unexpected ["'int'", "'num'", "'string'", "'pmc'"]
  | _ => unexpected ["'int'", "'num'", "'string'", "'pmc'"]

/-- The value of a constant of some type. A num may be written as an int, and a pmc as a
string. -/
def constantValue? : ValueType → TokenKind → Option ConstantValue
  | .int, .int v => some (.int v)
  | .num, .num v => some (.num v)
  | .num, .int v => some (.num (widen v))
  | .string, .string s => some (.string s)
  | .pmc, .string s => some (.pmc s)
  | _, _ => none

/-- `.const type name = value`, or the same for a global constant. -/
def constantDeclaration (isGlobal : Bool) : Parser Unit := do
  let _ ← advance
  let t ← type
  let name ← expectName "constant name"
  expectOperator .assign
  if ← atEndOfLine 0 then unexpected ["constant"]
  else
    let token ← advance
    match constantValue? t token.kind with
    | none => unexpectedToken token [t.name ++ " constant"]
    | some v =>
      endOfLine
      if isGlobal then Build.declareGlobalConstant name v else Build.declareConstant name v

/-- `.param type name flags`. -/
def parameter : Parser Unit := do
  let _ ← advance
  let t ← type
  let name ← expectName "parameter name"
  let marks ← targetMarks true
  endOfLine
  Build.addParameter t name marks.flags marks.namedAs marks.invocant

/-- The name of a local, and whether it has a register of its own. -/
def localName : Parser (String × Bool) := do
  let name ← expectName "identifier"
  let flag ← TokenStream.consumeIf (·.kind.isFlag .uniqueReg)
  return (name, flag.isSome)

/-- `.local type name, name ...`. -/
def localDeclaration : Parser Unit := do
  let _ ← advance
  let t ← type
  let names ← separated .comma localName
  endOfLine
  Build.declareLocals t names

/-- `.lex "name", object`. -/
def lexicalDeclaration : Parser Unit := do
  let _ ← advance
  let name ← expectString
  expectOperator .comma
  let object ← pmcObject
  endOfLine
  Build.declareLexical name object

end PirFrontend.Parser
