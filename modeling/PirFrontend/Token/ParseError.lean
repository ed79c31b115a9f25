import PirFrontend.Token.Basic

/-!
Errors of reading: text that no rule of the grammar allows.
-/
namespace PirFrontend

/-- The kinds of such errors. -/
inductive ParseError.Kind where
  | unexpectedToken | unexpectedEnd | lookaheadExceeded | lexical
  deriving DecidableEq, Repr

/-- What was found, where, and what would have been in order. -/
structure ParseError where
  kind : ParseError.Kind
  span : Option Span
  expected : List String
  found : Option String
  deriving DecidableEq, Repr

namespace ParseError

def unexpected (t : Token) (expected : List String) : ParseError :=
  ⟨.unexpectedToken, some t.span, expected, some t.describe⟩

def endOfInput (expected : List String) : ParseError :=
  ⟨.unexpectedEnd, none, expected, some "end of file"⟩

def lookahead (asked most : Nat) : ParseError :=
  ⟨.lookaheadExceeded, none, [s!"lookahead <= {most}"], some s!"lookahead {asked}"⟩

def ofFault (f : LexFault) : ParseError := ⟨.lexical, some f.span, [], some f.message⟩

/-- The line of the error, if it has a place. -/
def line? (e : ParseError) : Option Nat := e.span.map (·.line)

def message (e : ParseError) : String :=
  let found := e.found.getD "input"
  match e.kind with
  | .lexical => found
  | .lookaheadExceeded => found ++ " exceeds " ++ ", ".intercalate e.expected
  | .unexpectedToken | .unexpectedEnd =>
    "syntax error, unexpected " ++ found ++
      if e.expected.isEmpty then "" else ", expecting " ++ " or ".intercalate e.expected

end ParseError
end PirFrontend
