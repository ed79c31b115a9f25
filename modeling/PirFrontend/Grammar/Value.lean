import PirFrontend.Build.Operand
import PirFrontend.Grammar.Words

/-!
Values: constants, registers, names, and objects with a key. Keys hold values again.
-/
namespace PirFrontend.Parser

/-- The constant of a literal. -/
def literal? : TokenKind → Option Constant
  | .int v => some (.ofValue (.int v))
  | .num v => some (.ofValue (.num v))
  | .string s => some (.ofValue (.string s))
  | _ => none

/-- One more value of a key, if a semicolon announces it. -/
def nextEntry (value : Parser Expression) (entries : List Expression) :
    Parser (List Expression × Bool) := do
  if ← eatOperator .semicolon then
    let e ← value
    return (entries ++ [e], true)
  else return (entries, false)

/-- The key `[ value ; value ... ]`, with the rule for its values. -/
def keyOf (value : Parser Expression) : Parser Key := do
  expectOperator .leftBracket
  let first ← value
  let more ← Act.iterate (nextEntry value) []
  expectOperator .rightBracket
  pure ⟨first, more⟩

/-- A register or a declared name. -/
def target : Parser Target := do
  match ← peekKind 0 with
  | some (.register cls number) =>
    let _ ← advance
    pure (.register (.ofRegisterClass cls) number)
  | some .identifier | some (.keyword _) => do
    let name ← advanceText
    Build.symbolTarget name
  | _ => unexpected ["register", "identifier"]

/-- A value, with the rule for the values in its keys. -/
def valueStep (value : Parser Expression) : Parser Expression := do
  match ← peekKind 0 with
  | none => unexpected ["expression"]
  | some (.register .pmc number) =>
    if ← atOperator 1 .leftBracket then
      let _ ← advance
      let key ← keyOf value
      return .target (← Build.indexedTarget (.register number) key)
    else return .target (← target)
  | some (.register _ _) => return .target (← target)
  | some .identifier | some (.keyword _) =>
    let name ← advanceText
    if ← atOperator 0 .leftBracket then
      let key ← keyOf value
      return .target (← Build.indexedTarget (.named name) key)
    else Build.identifierValue name
  | some kind =>
    match literal? kind with
    | some c =>
      let _ ← advance
      return .constant c
    | none => unexpected ["expression"]

/-- A constant, a register, a name, or an object with a key. -/
def value : Parser Expression := Act.nest valueStep

/-- A key. -/
def key : Parser Key := keyOf value

/-- An object that has to be a pmc: a name or a `$P` register. -/
def pmcObject : Parser PmcObject := do
  match ← peekKind 0 with
  | some (.register .pmc number) =>
    let _ ← advance
    pure (.register number)
  | some .identifier | some (.keyword _) => return .named (← advanceText)
  | _ => unexpected ["identifier", "pmc register"]

/-- An operand of an opcode: a value, or a key on its own. A name alone may be a label. -/
def opArgument : Parser Expression := do
  match ← peekKind 0 with
  | some .identifier | some (.keyword _) =>
    if ← atOperator 1 .leftBracket then value
    else
      let name ← advanceText
      let s ← getThe Session
      return s.builder.identifierOperand name
  | some (.operator .leftBracket) => return .key (← key)
  | _ => value

/-- The operands of an opcode up to the end of the line. -/
def opArguments : Parser (List Expression) := do
  if ← atEndOfLine 0 then pure [] else separated .comma opArgument

end PirFrontend.Parser
