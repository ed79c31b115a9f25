import PirFrontend.Token.Split

/-!
The lexer: a place in a source text and the tokens from there on. Between tokens it passes over
blanks and comments. It keeps no memory of earlier text beyond whether a minus sign would begin a
number.
-/
namespace PirFrontend

/-- Whether a minus sign in front of a digit belongs to the number. -/
inductive SignRule where
  /-- It does: no operand has just ended. -/
  | allowed
  /-- It does after a blank, as in `print -1`; `x-1` is a difference. -/
  | spaced
  /-- It does not: an operand has just ended. -/
  | refused
  deriving DecidableEq, Repr

namespace SignRule

/-- The rule behind a token of this kind. -/
def after : TokenKind → SignRule
  | .operator .rightParen => refused
  | .operator .rightBracket => refused
  | .identifier => spaced
  | .register .. => refused
  | .int _ => refused
  | .num _ => refused
  | .string _ => refused
  | _ => allowed

/-- What the rule says, given whether blanks were passed over. -/
def permits (r : SignRule) (blanks : Bool) : Bool :=
  match r with
  | allowed => true
  | spaced => blanks
  | refused => false

end SignRule

/-- The characters between tokens: blank, tab, carriage return and form feed. -/
def isBlank (c : Char) : Bool := c == ' ' || c == '\t' || c == '\r' || c == '\x0c'

/-- Splits off the blanks in front of a text and the comment behind them. A comment ends before
its newline. -/
def splitTrivia (cs : List Char) : List Char × List Char :=
  let blanks := cs.takeWhile isBlank
  match cs.dropWhile isBlank with
  | '#' :: rest => (blanks ++ '#' :: rest.takeWhile (· != '\n'), rest.dropWhile (· != '\n'))
  | rest => (blanks, rest)

/-- The size of a text in UTF-8 bytes. -/
def byteSize (cs : List Char) : Nat := cs.foldr (fun c n => c.utf8Size + n) 0

/-- A source text from some place on. -/
structure Lexer where
  source : Nat
  rest : List Char
  offset : Nat
  line : Nat
  sign : SignRule

/-- One step of the lexer. -/
inductive LexStep where
  | token (t : Token)
  | fault (f : LexFault)
  | done

namespace Lexer

/-- The start of a source text. -/
def ofString (source : Nat) (text : String) : Lexer := ⟨source, text.toList, 0, 1, .allowed⟩

/-- The lexer behind `text`, where `rest` is left. The offset grows without limit, though a span
holds none beyond `maxOffset`; so this is how texts below that size are read. -/
def pass (l : Lexer) (text rest : List Char) : Lexer :=
  ⟨l.source, rest, l.offset + byteSize text, l.line + text.count '\n', l.sign⟩

/-- Passes over a piece and says what it was. -/
def take (l : Lexer) (p : Piece) : LexStep × Lexer :=
  let span := Span.between l.source l.offset (l.offset + byteSize p.text) l.line
  -- The gap is passed over, but it belongs to neither the text nor the span.
  let behind := l.pass (p.text ++ p.gap) p.rest
  match p.reading with
  | .ok kind =>
    (.token ⟨kind, String.ofList p.text, span⟩,
      { behind with sign := SignRule.after kind })
  -- After a fault no operand has ended.
  | .error (code, message) => (.fault ⟨code, message, span⟩, { behind with sign := .allowed })

/-- The next token or fault, and the lexer behind it. -/
def next (l : Lexer) : LexStep × Lexer :=
  let (trivia, rest) := splitTrivia l.rest
  let here := l.pass trivia rest
  match rest with
  | [] => (.done, here)
  | c :: cs => here.take (Piece.scan (l.sign.permits (!trivia.isEmpty)) c cs)

theorem splitTrivia_append (cs : List Char) : (splitTrivia cs).1 ++ (splitTrivia cs).2 = cs := by
  have h := List.takeWhile_append_dropWhile (p := isBlank) (l := cs)
  unfold splitTrivia
  dsimp only
  split
  next rest hr => rw [hr] at h; simpa [List.takeWhile_append_dropWhile] using h
  next => exact h

theorem rest_take (l : Lexer) (p : Piece) : (l.take p).2.rest = p.rest := by
  unfold take
  dsimp only
  split <;> rfl

/-- Every step but the last makes the rest of the text shorter. -/
theorem length_rest_next (l : Lexer) (h : l.next.1 ≠ .done) :
    l.next.2.rest.length < l.rest.length := by
  have hs := congrArg List.length (splitTrivia_append l.rest)
  rw [List.length_append] at hs
  unfold next at h ⊢
  dsimp only at h ⊢
  split
  next hr => rw [hr] at h; exact absurd rfl h
  next c cs hr =>
    rw [rest_take]
    have := Piece.length_rest_scan (l.sign.permits (!(splitTrivia l.rest).1.isEmpty)) c cs
    rw [hr] at hs
    omega

/-- Every step to the end of the text, and the lexer there. Faults do not stop it. -/
def run (l : Lexer) : List (Except LexFault Token) × Lexer :=
  match h : l.next with
  | (.done, l') => ([], l')
  | (.token t, l') =>
    have : l'.rest.length < l.rest.length := by
      have := l.length_rest_next (by simp [h]); simpa [h] using this
    let (steps, last) := l'.run
    (.ok t :: steps, last)
  | (.fault f, l') =>
    have : l'.rest.length < l.rest.length := by
      have := l.length_rest_next (by simp [h]); simpa [h] using this
    let (steps, last) := l'.run
    (.error f :: steps, last)
termination_by l.rest.length

/-- The tokens of a text, or its first fault. -/
def tokens (l : Lexer) : Except LexFault (List Token) := l.run.1.mapM id

/-- Passes over the next newline. At the end of the text there is none. -/
def skipLine (l : Lexer) : Bool × Lexer :=
  match h : l.next with
  | (.done, l') => (false, l')
  | (.token t, l') =>
    if t.kind.isNewline then (true, l')
    else
      have : l'.rest.length < l.rest.length := by
        have := l.length_rest_next (by simp [h]); simpa [h] using this
      l'.skipLine
  | (.fault _, l') =>
    have : l'.rest.length < l.rest.length := by
      have := l.length_rest_next (by simp [h]); simpa [h] using this
    l'.skipLine
termination_by l.rest.length

end Lexer
end PirFrontend
