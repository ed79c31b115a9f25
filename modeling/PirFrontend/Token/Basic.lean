import PirFrontend.Source.Span
import PirFrontend.Token.Operator
import PirFrontend.Token.Word

/-!
Tokens. A literal carries its value in its kind, so no token is without the value that its kind
promises.
-/
namespace PirFrontend

/-- What a token is. -/
inductive TokenKind where
  | newline
  | directive (d : Directive)
  | flag (f : FlagWord)
  | keyword (k : Keyword)
  | identifier
  /-- A name with a colon behind it, which belongs neither to the text nor to the span. -/
  | label
  | register (cls : RegisterClass) (number : Nat)
  | int (value : Int64)
  | num (value : Float)
  | string (contents : String)
  | operator (op : Operator)

namespace TokenKind

/-- Whether the token is this operator. -/
def isOperator (k : TokenKind) (op : Operator) : Bool :=
  match k with
  | operator o => o == op
  | _ => false

/-- Whether the token is this keyword. -/
def isKeyword (k : TokenKind) (w : Keyword) : Bool :=
  match k with
  | keyword v => v == w
  | _ => false

/-- Whether the token is this flag. -/
def isFlag (k : TokenKind) (f : FlagWord) : Bool :=
  match k with
  | flag g => g == f
  | _ => false

/-- Whether the token ends a line. -/
def isNewline : TokenKind → Bool
  | newline => true
  | _ => false

/-- Whether the token can name something. Keywords can. -/
def isName : TokenKind → Bool
  | identifier => true
  | keyword _ => true
  | _ => false

end TokenKind

/-- A token, its text and its place. -/
structure Token where
  kind : TokenKind
  lexeme : String
  span : Span

namespace Token

/-- The line on which the token starts. -/
def line (t : Token) : Nat := t.span.line

/-- The token as error messages name it. -/
def describe (t : Token) : String :=
  match t.kind with
  | .newline => "newline"
  | .label => s!"'{t.lexeme}:'"
  | _ => s!"'{t.lexeme}'"

end Token

/-- The kinds of text that form no token. -/
inductive LexFault.Code where
  | unterminatedString | invalidCharacter | malformedNumber | malformedRegister | unknownFlag
  deriving DecidableEq, Repr

/-- A piece of text that forms no token. Reading goes on behind its span. -/
structure LexFault where
  code : LexFault.Code
  message : String
  span : Span
  deriving DecidableEq, Repr

end PirFrontend
