import PirFrontend.Decimal.Read
import PirFrontend.Text.Digits
import PirFrontend.Token.Piece

/-!
Number literals. Decimal digits make an int; a fraction or an exponent makes a num. After `0x` or
`0b` stand the bits of an int. A literal that denotes no value is malformed as a whole, and never
cut short to one that does.
-/
namespace PirFrontend.Numeral

/-- A minus sign, if one begins the text, and the text behind it. -/
def sign : List Char → List Char × List Char
  | '-' :: rest => (['-'], rest)
  | cs => ([], cs)

/-- Splits off the decimal digits that begin a text. -/
def decimals (cs : List Char) : List Char × List Char :=
  (cs.takeWhile Char.isDigit, cs.dropWhile Char.isDigit)

/-- Splits off a point with digits behind it. -/
def fraction : List Char → List Char × List Char
  | '.' :: d :: rest =>
    if d.isDigit then ('.' :: d :: rest.takeWhile Char.isDigit, rest.dropWhile Char.isDigit)
    else ([], '.' :: d :: rest)
  | cs => ([], cs)

/-- The letters that begin an exponent. -/
def isExponentMark (c : Char) : Bool := c == 'e' || c == 'E'

/-- Splits off an exponent, whose digits may have a sign. -/
def exponent : List Char → List Char × List Char
  | e :: s :: rest =>
    if isExponentMark e && s.isDigit then
      (e :: s :: rest.takeWhile Char.isDigit, rest.dropWhile Char.isDigit)
    else if isExponentMark e && (s == '+' || s == '-') && (rest.head?.any Char.isDigit) then
      (e :: s :: rest.takeWhile Char.isDigit, rest.dropWhile Char.isDigit)
    else ([], e :: s :: rest)
  | cs => ([], cs)

/-- The int with this sign and magnitude, if there is one. -/
def int? (negative : Bool) (magnitude : Nat) : Option Int64 :=
  if negative then
    if magnitude ≤ Nat.pow 2 63 then some (Int64.ofInt (-(magnitude : Int))) else none
  else
    if magnitude < Nat.pow 2 63 then some (Int64.ofInt magnitude) else none

/-- The int with these bits, negated modulo `2 ^ 64` behind a minus sign. -/
def bits? (negative : Bool) (magnitude : Nat) : Option Int64 :=
  if magnitude < Nat.pow 2 64 then
    let value := (UInt64.ofNat magnitude).toInt64
    some (if negative then -value else value)
  else none

/-- The exponent that the text of one denotes; nothing denotes zero. -/
def exponentValue : List Char → Int
  | _ :: '-' :: ds => -((Text.value? 10 ds).getD 0 : Int)
  | _ :: '+' :: ds => ((Text.value? 10 ds).getD 0 : Int)
  | _ :: ds => ((Text.value? 10 ds).getD 0 : Int)
  | [] => 0

/-- The num that a sign, whole digits, a fraction and an exponent denote. -/
def num (negative : Bool) (whole fraction exponent : List Char) : Float :=
  let behind := fraction.drop 1
  let digits := (Text.value? 10 (whole ++ behind)).getD 0
  let value := Decimal.toFloat digits (exponentValue exponent - behind.length)
  if negative then -value else value

/-- The base that a letter behind a zero stands for. -/
def base? (c : Char) : Option Nat :=
  if c = 'x' ∨ c = 'X' then some 16 else if c = 'b' ∨ c = 'B' then some 2 else none

/-- The base and the text behind it, if the text begins with a zero and a base letter. -/
def radix? : List Char → Option (Nat × Char × List Char)
  | '0' :: x :: rest => (base? x).map fun base => (base, x, rest)
  | _ => none

/-- A literal whose value was found, or a malformed one. -/
def piece (kind : Option TokenKind) (text rest : List Char) : Piece :=
  match kind with
  | some kind => .token kind text rest
  | none =>
    let lexeme := String.ofList text
    .fault .malformedNumber s!"malformed number '{lexeme}'" text rest

/-- The literal that begins a text. -/
def scan (cs : List Char) : Piece :=
  let (minus, body) := sign cs
  let negative := !minus.isEmpty
  match radix? body with
  | some (base, x, rest) =>
    -- All word characters belong to the literal, also those that spoil it.
    let run := rest.takeWhile isWordChar
    let value := (Text.value? base run).bind (bits? negative)
    piece (value.map .int) (minus ++ '0' :: x :: run) (rest.dropWhile isWordChar)
  | none =>
    let (whole, afterWhole) := decimals body
    let (point, afterPoint) := fraction afterWhole
    let (scale, rest) := exponent afterPoint
    let text := minus ++ whole ++ point ++ scale
    -- Without a point and a scale the literal is an int, and too large a one is malformed.
    if point.isEmpty && scale.isEmpty then
      piece (((Text.value? 10 whole).bind (int? negative)).map .int) text rest
    else piece (some (.num (num negative whole point scale))) text rest

/-- Whether a text begins with a literal; a minus sign counts where a sign is allowed. -/
def starts (signAllowed : Bool) : List Char → Bool
  | c :: rest => c.isDigit || (signAllowed && c == '-' && rest.head?.any Char.isDigit)
  | [] => false

end PirFrontend.Numeral
