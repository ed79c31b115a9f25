import PirFrontend.Token.Basic

/-!
What the scanner reads in one go, without its place. A piece splits the remaining text in three:
the text it covers, a gap passed over behind it, and the rest.
-/
namespace PirFrontend

/-- One piece of text and what it is: a kind of token, or the fault that spoils it. -/
structure Piece where
  reading : Except (LexFault.Code × String) TokenKind
  text : List Char
  gap : List Char
  rest : List Char

namespace Piece

/-- A piece that is a token. -/
def token (kind : TokenKind) (text rest : List Char) : Piece := ⟨.ok kind, text, [], rest⟩

/-- A piece that is none. -/
def fault (code : LexFault.Code) (message : String) (text rest : List Char) : Piece :=
  ⟨.error (code, message), text, [], rest⟩

end Piece

/-- The characters that begin a word. -/
def isWordStart (c : Char) : Bool := c.isAlpha || c == '_'

/-- The characters that go on with a word. -/
def isWordChar (c : Char) : Bool := c.isAlphanum || c == '_'

end PirFrontend
