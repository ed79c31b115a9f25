import PirFrontend.Token.Piece

/-!
Quoted strings. Between double quotes a backslash and a letter stand for one character; between
single quotes every character stands for itself. A string ends on the line it began.
-/
namespace PirFrontend.Quoted

/-- What a backslash and the character behind it stand for. A pair without a meaning stands for
itself. -/
def unescape (c : Char) : List Char :=
  if c = 'n' then ['\n']
  else if c = 't' then ['\t']
  else if c = 'r' then ['\r']
  else if c = '0' then ['\x00']
  else if c = 'e' then ['\x1b']
  else if c = 'a' then ['\x07']
  else if c = '\\' ∨ c = '"' ∨ c = '\'' then [c]
  else ['\\', c]

/-- The inside of a string up to its closing quote: the contents, the text read, and the rest. -/
structure Body where
  contents : List Char
  text : List Char
  rest : List Char

/-- The body with one more written character, or pair of them, in front. -/
def Body.push (b : Body) (contents text : List Char) : Body :=
  ⟨contents ++ b.contents, text ++ b.text, b.rest⟩

/-- Reads up to the closing quote, if the line has one. -/
def body? (quote : Char) : List Char → Option Body
  | [] => none
  | [c] => if c = quote then some ⟨[], [c], []⟩ else none
  | c :: d :: rest =>
    if c = '\n' then none
    else if c = quote then some ⟨[], [c], d :: rest⟩
    else if quote == '"' && c == '\\' then
      -- A backslash does not carry the string over the end of the line.
      if d = '\n' then none else (body? quote rest).map (·.push (unescape d) [c, d])
    else (body? quote (d :: rest)).map (·.push [c] [c])

/-- The string that begins with the given quote. Without a closing quote the fault takes the rest
of the line. -/
def scan (quote : Char) (cs : List Char) : Piece :=
  match body? quote cs with
  | some b => .token (.string (String.ofList b.contents)) (quote :: b.text) b.rest
  | none =>
    .fault .unterminatedString "unterminated string constant"
      (quote :: cs.takeWhile (· != '\n')) (cs.dropWhile (· != '\n'))

end PirFrontend.Quoted
