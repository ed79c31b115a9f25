import PirFrontend.Build.Emission
import PirFrontend.Grammar.Value

/-!
Conditional branches: `if` and `unless` with a value, a comparison, or a test for null.
-/
namespace PirFrontend.Parser

/-- Whether a token joins a condition to its label. -/
def joinsLabel (kind : TokenKind) : Bool := kind.isKeyword .goto || kind.isOperator .comma

/-- `goto L` or `, L` at the end of the line. -/
def branchLabel : Parser String := do
  match ← TokenStream.consumeIf (joinsLabel ·.kind) with
  | none => unexpected ["'goto'", "','"]
  | some _ =>
    let label ← expectName "label"
    endOfLine
    pure label

/-- `goto L` at the end of the line, where a comma will not do. -/
def gotoLabel : Parser String := do
  if (← peekKind 0).any (·.isKeyword .goto) then branchLabel else unexpected ["'goto'"]

/-- A condition that begins with `null`. If the line ends right behind its label, `null` names a
variable; else the target behind it is tested for being null. -/
def nullCondition (p : Polarity) (next : Option TokenKind) : Parser Unit := do
  -- `if null goto L` tests a variable; `if null goto goto L` tests whether `goto` is null.
  let isVariable ← pure (next.any joinsLabel) <&&> atName 2 <&&> atEndOfLine 3
  let _ ← advance
  if isVariable then
    let label ← branchLabel
    let _ ← Build.conditionalVariable p false "null" label
  else
    let t ← target
    let label ← gotoLabel
    let _ ← Build.conditionalTarget p true t label

/-- A comparison and its label. -/
def relationCondition (p : Polarity) (op : RelOp) : Parser Unit := do
  let left ← value
  let _ ← advance
  let right ← value
  let label ← gotoLabel
  let _ ← Build.conditionalRelation p left op right label

/-- A value and its label. -/
def valueCondition (p : Polarity) (kind : TokenKind) : Parser Unit := do
  match kind with
  | .register _ _ =>
    let t ← target
    let label ← branchLabel
    let _ ← Build.conditionalTarget p false t label
  | .identifier | .keyword _ =>
    let name ← advanceText
    let label ← branchLabel
    let _ ← Build.conditionalVariable p false name label
  | _ =>
    match literal? kind with
    | none => unexpected ["condition"]
    | some c =>
      let _ ← advance
      let label ← branchLabel
      let _ ← Build.conditionalConstant p c label

/-- The comparison that a token stands for. -/
def relation? (kind : Option TokenKind) : Option RelOp :=
  match kind with
  | some (.operator op) => RelOp.ofOperator? op
  | _ => none

/-- A conditional branch, from its first word on. -/
def conditional (p : Polarity) : Parser Unit := do
  let _ ← advance
  match ← peekKind 0 with
  | none => unexpected ["condition"]
  | some kind =>
    let next ← peekKind 1
    match relation? next with
    | some op => relationCondition p op
    | none => if kind.isKeyword .null then nullCondition p next else valueCondition p kind

end PirFrontend.Parser
