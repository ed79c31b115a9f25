import PirFrontend.Build.Invoking
import PirFrontend.Grammar.Invocation

/-!
Assignments. What stands behind the equals sign is told apart by the next token and the one
behind it.
-/
namespace PirFrontend.Parser

/-- The operation of the operator between two operands, if a token is one. -/
def infixOp? (kind : Option TokenKind) : Option BinaryOp :=
  match kind with
  | some (.operator op) => BinaryOp.ofInfix? op
  | _ => none

/-- `T = A op B`, from `A` on. -/
def binaryAssignment (t : Target) : Parser Unit := do
  let left ← value
  let token ← advance
  match infixOp? (some token.kind) with
  | none => unexpectedToken token ["binary operator"]
  | some op =>
    let right ← value
    endOfLine
    Build.assignBinary t left op right

/-- `T = call(...)`, from the call on. -/
def callAssignment (t : Target) : Parser Unit := do
  let i ← invocation
  endOfLine
  Build.shortInvocation i [t]

/-- `T = name`, `T = op args`, `T = name[key]` or `T = op [key], args`, from the name on. -/
def opAssignment (t : Target) : Parser Unit := do
  let name ← advanceText
  -- A key behind the name belongs to the name, unless a comma makes it an operand.
  if ← atOperator 0 .leftBracket then
    let k ← key
    if ← eatOperator .comma then
      let operands ← opArguments
      endOfLine
      Build.assignOp t name (.key k :: operands)
    else
      endOfLine
      Build.assignKeyed t name k
  else
    let operands ← opArguments
    endOfLine
    Build.assignOp t name operands

/-- `T = literal`, from the literal on. -/
def literalAssignment (t : Target) (kind : TokenKind) : Parser Unit := do
  let _ ← advance
  endOfLine
  match kind with
  | .int v => Build.assignInt t v
  | .num v => Build.assignNum t v
  | .string s => Build.assignString t s
  | _ => pure ()

/-- `T = op E`, from the operator on. -/
def unaryAssignment (t : Target) (op : Operator) : Parser Unit := do
  match UnaryOp.ofOperator? op with
  | none => unexpected ["expression"]
  | some op =>
    let _ ← advance
    let e ← value
    endOfLine
    Build.assignUnary t op e

/-- A literal behind an equals sign, which may begin an operation. -/
def literalOrBinary (t : Target) (kind : TokenKind) (next : Option TokenKind) : Parser Unit :=
  if (infixOp? next).isSome then binaryAssignment t else literalAssignment t kind

/-- Whether a call is ahead, by the token behind the next one. -/
def atCall (next : Option TokenKind) : Parser Bool :=
  if next.any (·.isOperator .leftParen) then pure true else atMethodCall

/-- The right-hand side of `T = ...`. -/
def assignment (t : Target) : Parser Unit := do
  match ← peekKind 0 with
  | none => unexpected ["expression"]
  | some kind =>
    let next ← peekKind 1
    match kind with
    | .operator op => unaryAssignment t op
    -- A string in front of a parenthesis names a subroutine.
    | .string _ =>
      if next.any (·.isOperator .leftParen) then callAssignment t
      else literalOrBinary t kind next
    | .int _ | .num _ => literalOrBinary t kind next
    | .register _ _ =>
      if ← atCall next then callAssignment t
      else if (infixOp? next).isSome then binaryAssignment t
      else
        let e ← value
        endOfLine
        Build.assignExpression t e
    | .identifier | .keyword _ =>
      if ← atCall next then callAssignment t
      else if (infixOp? next).isSome then binaryAssignment t
      else opAssignment t
    | _ => unexpected ["expression"]

/-- `T op= E`, from the operator on. -/
def augmented (t : Target) : Parser Unit := do
  let token ← advance
  let op := match token.kind with
    | .operator op => BinaryOp.ofAugmented? op
    | _ => none
  match op with
  | none => unexpectedToken token ["assignment operator"]
  | some op =>
    let e ← value
    endOfLine
    Build.augmentedAssign t op e

/-- `object[key] = value`, from the bracket on. -/
def keyedStore (object : PmcObject) : Parser Unit := do
  let k ← key
  expectOperator .assign
  let e ← value
  endOfLine
  Build.keyedStore object k e

end PirFrontend.Parser
