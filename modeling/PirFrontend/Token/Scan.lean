import PirFrontend.Text.Escape
import PirFrontend.Token.Numeral
import PirFrontend.Token.Quoted

/-!
One token from the front of a text. `Piece.scan` looks at the first character or two, chooses
what to read, and never leaves a character unread in front of the piece.
-/
namespace PirFrontend

/-- Whether a colon followed by this text ends a label. Behind it `x :flag` and `x::y` go on. -/
def closesLabel : List Char → Bool
  | c :: _ => !(isWordStart c || c == ':')
  | [] => true

namespace Piece

/-- A name, a keyword, or a label with its colon. A label may spell a keyword. -/
def word (cs : List Char) : Piece :=
  let text := cs.takeWhile isWordChar
  let kind :=
    match Keyword.ofSpelling? (String.ofList text) with
    | some k => TokenKind.keyword k
    | none => TokenKind.identifier
  match cs.dropWhile isWordChar with
  | ':' :: rest => if closesLabel rest then ⟨.ok .label, text, [':'], rest⟩
    else .token kind text (':' :: rest)
  | rest => .token kind text rest

/-- A directive, given the text behind its dot. Other names behind a dot are none. -/
def directive? (rest : List Char) : Option Piece :=
  let text := '.' :: rest.takeWhile isWordChar
  (Directive.ofSpelling? (String.ofList text)).map fun d =>
    .token (.directive d) text (rest.dropWhile isWordChar)

/-- A flag, given the text behind its colon. -/
def flag (rest : List Char) : Piece :=
  let text := ':' :: rest.takeWhile isWordChar
  let lexeme := String.ofList text
  match FlagWord.ofSpelling? lexeme with
  | some f => .token (.flag f) text (rest.dropWhile isWordChar)
  | none => .fault .unknownFlag s!"unknown flag '{lexeme}'" text (rest.dropWhile isWordChar)

/-- The register that the word behind a dollar sign names: a class letter and a number below
`2 ^ 32` in decimal digits. -/
def registerKind? : List Char → Option TokenKind
  | [] => none
  | c :: ds => do
    let cls ← RegisterClass.ofLetter? c
    let number ← if ds.all Char.isDigit then Text.value? 10 ds else none
    if number < Nat.pow 2 32 then some (.register cls number) else none

/-- A register, given the text behind its dollar sign. -/
def register (rest : List Char) : Piece :=
  let run := rest.takeWhile isWordChar
  let text := '$' :: run
  match registerKind? run with
  | some kind => .token kind text (rest.dropWhile isWordChar)
  | none =>
    let lexeme := String.ofList text
    .fault .malformedRegister s!"malformed register '{lexeme}'" text (rest.dropWhile isWordChar)

/-- The longest operator, or a character that begins nothing. -/
def operator (c : Char) (rest : List Char) : Piece :=
  match Operator.scan? (c :: rest) with
  | some (op, after) => .token (.operator op) op.glyphs after
  | none =>
    let shown := String.ofList (Text.escapeChar c)
    .fault .invalidCharacter s!"invalid character '{shown}'" [c] rest

/-- The piece at the front of the text `c :: rest`. -/
def scan (signAllowed : Bool) (c : Char) (rest : List Char) : Piece :=
  if c = '\n' then .token .newline [c] rest
  else if c = '"' ∨ c = '\'' then Quoted.scan c rest
  else if c = '$' then register rest
  else if c = ':' ∧ rest.head?.any isWordStart then flag rest
  else if c = '.' ∧ rest.head?.any isWordStart then
    (directive? rest).getD (operator c rest)
  else if isWordStart c then word (c :: rest)
  else if Numeral.starts signAllowed (c :: rest) then Numeral.scan (c :: rest)
  else operator c rest

end Piece
end PirFrontend
