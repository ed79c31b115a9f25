/-!
Operators and punctuation. The table lists longer spellings before the shorter ones they begin
with, so the first spelling that begins a text is the longest one.
-/
namespace PirFrontend

/-- An operator or a punctuation mark. -/
inductive Operator where
  | assign | plus | minus | star | slash | percent | pipe | amp | tilde | bang | less | greater
  | dot | starStar | shiftRightUnsigned | shiftRight | shiftLeft | slashSlash | pipePipe | ampAmp
  | tildeTilde | equalEqual | notEqual | lessEqual | greaterEqual | fatArrow | plusAssign
  | minusAssign | starAssign | percentAssign | starStarAssign | slashAssign | slashSlashAssign
  | pipeAssign | ampAssign | tildeAssign | dotAssign | shiftRightAssign | shiftLeftAssign
  | shiftRightUnsignedAssign | leftParen | rightParen | leftBracket | rightBracket | comma
  | semicolon
  deriving DecidableEq, Repr

namespace Operator

/-- The characters of an operator. -/
def glyphs : Operator → List Char
  | assign => ['=']
  | plus => ['+']
  | minus => ['-']
  | star => ['*']
  | slash => ['/']
  | percent => ['%']
  | pipe => ['|']
  | amp => ['&']
  | tilde => ['~']
  | bang => ['!']
  | less => ['<']
  | greater => ['>']
  | dot => ['.']
  | starStar => ['*', '*']
  | shiftRightUnsigned => ['>', '>', '>']
  | shiftRight => ['>', '>']
  | shiftLeft => ['<', '<']
  | slashSlash => ['/', '/']
  | pipePipe => ['|', '|']
  | ampAmp => ['&', '&']
  | tildeTilde => ['~', '~']
  | equalEqual => ['=', '=']
  | notEqual => ['!', '=']
  | lessEqual => ['<', '=']
  | greaterEqual => ['>', '=']
  | fatArrow => ['=', '>']
  | plusAssign => ['+', '=']
  | minusAssign => ['-', '=']
  | starAssign => ['*', '=']
  | percentAssign => ['%', '=']
  | starStarAssign => ['*', '*', '=']
  | slashAssign => ['/', '=']
  | slashSlashAssign => ['/', '/', '=']
  | pipeAssign => ['|', '=']
  | ampAssign => ['&', '=']
  | tildeAssign => ['~', '=']
  | dotAssign => ['.', '=']
  | shiftRightAssign => ['>', '>', '=']
  | shiftLeftAssign => ['<', '<', '=']
  | shiftRightUnsignedAssign => ['>', '>', '>', '=']
  | leftParen => ['(']
  | rightParen => [')']
  | leftBracket => ['[']
  | rightBracket => [']']
  | comma => [',']
  | semicolon => [';']

def spelling (op : Operator) : String := String.ofList op.glyphs

/-- Every operator, longer ones first. -/
def table : List Operator :=
  [shiftRightUnsignedAssign, shiftRightUnsigned, shiftRightAssign, shiftLeftAssign,
   slashSlashAssign, starStarAssign, fatArrow, equalEqual, notEqual, lessEqual, greaterEqual,
   shiftRight, shiftLeft, slashSlash, pipePipe, ampAmp, tildeTilde, starStar, plusAssign,
   minusAssign, starAssign, percentAssign, slashAssign, pipeAssign, ampAssign, tildeAssign,
   dotAssign, assign, plus, minus, star, slash, percent, pipe, amp, tilde, bang, less, greater,
   dot, leftParen, rightParen, leftBracket, rightBracket, comma, semicolon]

/-- The operator that begins a text, together with the text behind it. -/
def scan? (cs : List Char) : Option (Operator × List Char) :=
  (table.find? fun op => op.glyphs.isPrefixOf cs).map fun op => (op, cs.drop op.glyphs.length)

end Operator
end PirFrontend
