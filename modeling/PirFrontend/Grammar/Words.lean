import PirFrontend.Grammar.Parser
import PirFrontend.Value.Operation

/-!
The smallest rules: one token, or a question about the tokens ahead.
-/
namespace PirFrontend.Parser

/-- The kind of the token at an index ahead. -/
def peekKind (index : Nat) : Parser (Option TokenKind) := do
  return (← TokenStream.peek index).map (·.kind)

/-- Whether the token at an index is an operator. -/
def atOperator (index : Nat) (op : Operator) : Parser Bool := do
  return (← peekKind index).any (·.isOperator op)

/-- Whether the token at an index can name something. -/
def atName (index : Nat) : Parser Bool := do
  return (← peekKind index).any (·.isName)

/-- Whether the line ends at an index, or the text does. -/
def atEndOfLine (index : Nat) : Parser Bool := do
  return (← peekKind index).all (·.isNewline)

/-- Whether the token at an index assigns, so that what stands before it is a variable even if it
spells a keyword. -/
def atAssignment (index : Nat) : Parser Bool := do
  match ← peekKind index with
  | some (.operator op) => return op == .assign || (BinaryOp.ofAugmented? op).isSome
  | _ => return false

/-- Whether a method call `object.method(` is ahead. -/
def atMethodCall : Parser Bool := atOperator 1 .dot <&&> atOperator 3 .leftParen

/-- Takes the next token, whatever it is. -/
def advance : Parser Token := do
  match ← TokenStream.next with
  | some t => pure t
  | none => throw (.broken (.endOfInput ["token"]))

/-- Takes the next token for its text. -/
def advanceText : Parser String := do return (← advance).lexeme

/-- Takes an operator if it is next. -/
def eatOperator (op : Operator) : Parser Bool := do
  return (← TokenStream.consumeIf (·.kind.isOperator op)).isSome

/-- Takes a newline if it is next. -/
def eatNewline : Parser Bool := do
  return (← TokenStream.consumeIf (·.kind.isNewline)).isSome

/-- Takes an operator. -/
def expectOperator (op : Operator) : Parser Unit := do
  if ← eatOperator op then pure () else unexpected [s!"'{op.spelling}'"]

/-- Takes a name; `role` is what it is called if it is missing. -/
def expectName (role : String) : Parser String := do
  if ← atName 0 then advanceText else unexpected [role]

/-- Takes a string for its contents. -/
def expectString : Parser String := do
  match ← peekKind 0 with
  | some (.string s) =>
    let _ ← advance
    pure s
  | _ => unexpected ["string constant"]

/-- Ends a statement: takes the newline, or is at the end of the text. -/
def endOfLine : Parser Unit := do
  if ← eatNewline then pure ()
  else
    match ← peekKind 0 with
    | none => pure ()
    | some _ => unexpected ["newline"]

/-- Passes over empty lines. -/
def skipNewlines : Parser Unit := Act.repeatWhile eatNewline

/-- A string in parentheses. -/
def parenString : Parser String := do
  expectOperator .leftParen
  let s ← expectString
  expectOperator .rightParen
  pure s

/-- A string in parentheses, which may be left out as a whole. -/
def optionalParenString : Parser (Option String) := do
  if ← atOperator 0 .leftParen then some <$> parenString else pure none

/-- One more item. Says whether the operator announces another one. -/
def nextItem {α : Type} (op : Operator) (item : Parser α) (items : List α) :
    Parser (List α × Bool) := do
  let a ← item
  return (items ++ [a], ← eatOperator op)

/-- One item or more, with an operator between them. -/
def separated {α : Type} (op : Operator) (item : Parser α) : Parser (List α) :=
  Act.iterate (nextItem op item) []

/-- Items in parentheses, with commas between them. -/
def parenthesized {α : Type} (item : Parser α) : Parser (List α) := do
  expectOperator .leftParen
  if ← eatOperator .rightParen then pure []
  else
    let items ← separated .comma item
    expectOperator .rightParen
    pure items

end PirFrontend.Parser
