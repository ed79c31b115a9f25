import PirFrontend.Token.Lexer
import PirFrontend.Token.ParseError

/-!
Tokens with a bounded look ahead. Tokens that were looked at wait in a buffer. Text that forms no
token is met once: the reading that meets it fails, and the next one goes on behind it.
-/
namespace PirFrontend

/-- The tokens of a text from some place on. -/
structure TokenStream where
  lexer : Lexer
  /-- The tokens that were looked at and not taken. -/
  ahead : List Token
  /-- Whether the lexer has met the end of the text. -/
  ended : Bool

/-- An action on a stream. What it took before it failed stays taken. -/
abbrev Reading := ExceptT ParseError (StateM TokenStream)

/-- How far one can look ahead. -/
def maxLookahead : Nat := 3

namespace TokenStream

/-- The stream of a lexer. -/
def ofLexer (l : Lexer) : TokenStream := ⟨l, [], false⟩

/-- The characters and tokens that are left. It bounds all reading from here on. -/
def size (s : TokenStream) : Nat := s.ahead.length + s.lexer.rest.length

/-- Moves up to `n` more tokens into the buffer. -/
def fill : Nat → TokenStream → Except ParseError Unit × TokenStream
  | 0, s => (.ok (), s)
  | n + 1, s =>
    if s.ended then (.ok (), s)
    else
      match s.lexer.next with
      | (.token t, l) => fill n { s with lexer := l, ahead := s.ahead ++ [t] }
      | (.done, l) => (.ok (), { s with lexer := l, ended := true })
      -- The lexer already stands behind the fault, so it is met only once.
      | (.fault f, l) => (.error (.ofFault f), { s with lexer := l })

/-- Fills the buffer up to an index, if the text goes that far. -/
def fillTo (index : Nat) : Reading Unit := fun s => s.fill (index + 1 - s.ahead.length)

/-- The token at an index, counted from the next one. -/
def peek (index : Nat) : Reading (Option Token) := do
  if maxLookahead < index then throw (.lookahead index maxLookahead)
  else
    fillTo index
    return (← get).ahead[index]?

/-- Takes the next token. -/
def next : Reading (Option Token) := do
  fillTo 0
  let s ← get
  match s.ahead with
  | [] => pure none
  | t :: rest =>
    set { s with ahead := rest }
    pure (some t)

/-- Takes the next token if it passes a test. -/
def consumeIf (test : Token → Bool) : Reading (Option Token) := do
  match ← peek 0 with
  | some t => if test t then next else pure none
  | none => pure none

/-- Takes the next token, which has to pass a test. It is taken even if it does not. -/
def expect (test : Token → Bool) (label : String) : Reading Token := do
  match ← next with
  | some t => if test t then pure t else throw (.unexpected t [label])
  | none => throw (.endOfInput [label])

/-- Drops everything through the next newline, waiting tokens first. Says whether there was a
newline. -/
def skipLine (s : TokenStream) : Bool × TokenStream :=
  match s.ahead.dropWhile (!·.kind.isNewline) with
  | _ :: rest => (true, { s with ahead := rest })
  -- No newline was waiting: go on in the text, where faults no longer matter.
  | [] =>
    let (found, l) := s.lexer.skipLine
    (found, ⟨l, [], s.ended || !found⟩)

/-- The line of the next token, or the line on which the lexer stands if there is none. -/
def line (s : TokenStream) : Nat × TokenStream :=
  match (peek 0).run s with
  | (.ok (some t), s) => (t.line, s)
  | (_, s) => (s.lexer.line, s)

end TokenStream
end PirFrontend
