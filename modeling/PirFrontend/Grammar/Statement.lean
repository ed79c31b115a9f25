import PirFrontend.Grammar.Assignment
import PirFrontend.Grammar.CallBlock
import PirFrontend.Grammar.Conditional

/-!
The statements in the body of a subroutine, told apart by the token they begin with.
-/
namespace PirFrontend.Parser

/-- A call on its own. -/
def callStatement : Parser Unit := do
  let i ← invocation
  endOfLine
  Build.shortInvocation i []

/-- `goto L`. -/
def gotoStatement : Parser Unit := do
  let _ ← advance
  let label ← expectName "label"
  endOfLine
  Build.gotoLabel label

/-- `null T`. -/
def nullStatement : Parser Unit := do
  let _ ← advance
  let t ← target
  endOfLine
  Build.nullTarget t

/-- An opcode with its operands. -/
def opStatement : Parser Unit := do
  let opcode ← advanceText
  Act.change (·.beginInstruction opcode)
  let operands ← opArguments
  Act.change fun b => operands.foldl Builder.pushOperand b
  endOfLine
  Build.finishInstruction

/-- A statement that begins with a name. -/
def nameStatement : Parser Unit := do
  match ← peekKind 1 with
  | some (.operator .assign) =>
    let name ← advanceText
    let t ← Build.symbolTarget name
    let _ ← advance
    assignment t
  | some (.operator .leftParen) | some (.operator .dot) => callStatement
  | some (.operator .leftBracket) =>
    let name ← advanceText
    keyedStore (.named name)
  | some (.operator op) =>
    -- An operator that also assigns stays next, for `augmented`.
    if (BinaryOp.ofAugmented? op).isSome then
      let name ← advanceText
      let t ← Build.symbolTarget name
      augmented t
    else opStatement
  | _ => opStatement

/-- A register that begins no statement. -/
def strayRegister : Parser Unit := do
  let _ ← advance
  unexpected ["'='", "'('", "'['"]

/-- A statement that begins with a register. -/
def registerStatement (cls : RegisterClass) (number : Nat) : Parser Unit := do
  match ← peekKind 1 with
  | some (.operator .assign) =>
    let t ← target
    let _ ← advance
    assignment t
  | some (.operator .leftParen) | some (.operator .dot) => callStatement
  | some (.operator .leftBracket) =>
    if cls = .pmc then
      let _ ← advance
      keyedStore (.register number)
    else strayRegister
  | some (.operator op) =>
    if (BinaryOp.ofAugmented? op).isSome then
      let t ← target
      augmented t
    else strayRegister
  | _ => strayRegister

/-- `(results) = call`. -/
def resultStatement : Parser Unit := do
  let results ← resultTargets
  expectOperator .assign
  let i ← invocation
  endOfLine
  Build.shortInvocation i results

/-- `.return (arguments)`. -/
def returnStatement : Parser Unit := do
  let _ ← advance
  let as ← arguments
  endOfLine
  Build.returnArguments as

/-- `.yield (arguments)`. -/
def yieldStatement : Parser Unit := do
  let _ ← advance
  let as ← arguments
  endOfLine
  Build.yieldArguments as

/-- `.tailcall call`. -/
def tailcallStatement : Parser Unit := do
  let _ ← advance
  let i ← invocation
  endOfLine
  Build.tailcall i

/-- `.get_results (targets)`. -/
def getResultsStatement : Parser Unit := do
  let _ ← advance
  let targets ← resultTargets
  endOfLine
  Build.getResults targets

/-- A statement that begins with a directive. -/
def directiveStatement (d : Directive) : Parser Unit :=
  match d with
  | .localDecl => localDeclaration
  | .lex => lexicalDeclaration
  | .const => constantDeclaration false
  | .globalConst => constantDeclaration true
  | .returnValues => returnStatement
  | .yieldValues => yieldStatement
  | .tailcall => tailcallStatement
  | .getResults => getResultsStatement
  | _ => unexpected ["statement"]

/-- A statement. Keywords that are assigned to are names. -/
def statement : Parser Unit := do
  match ← peekKind 0 with
  | none => unexpected ["statement"]
  | some kind =>
    match kind with
    | .keyword .ifWord => conditional .positive
    | .keyword .unlessWord => conditional .negative
    | .keyword .goto => if ← atAssignment 1 then nameStatement else gotoStatement
    | .keyword .null => if ← atAssignment 1 then nameStatement else nullStatement
    | .identifier | .keyword _ => nameStatement
    | .register cls number => registerStatement cls number
    | .string _ => callStatement
    | .operator .leftParen => resultStatement
    | .directive d => directiveStatement d
    | _ => unexpected ["statement"]

/-- A statement, or the first line of a block. Says which block was begun, if one was. -/
def statementOrBlock : Parser (Option Block) := do
  match ← peekKind 0 with
  | some (.directive d) =>
    match Block.begunBy? d with
    | some block =>
      blockHeader block
      pure (some block)
    | none =>
      statement
      pure none
  | _ =>
    statement
    pure none

/-- A statement behind its label, a statement alone, or a label alone. Says which block was begun,
if one was. -/
def labelledStatement : Parser (Option Block) := do
  match ← peekKind 0 with
  | some .label =>
    let label ← advanceText
    Build.setLabel label
    if ← atEndOfLine 0 then
      endOfLine
      pure none
    else statementOrBlock
  | _ => statementOrBlock

end PirFrontend.Parser
