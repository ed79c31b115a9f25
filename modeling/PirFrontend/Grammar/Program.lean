import PirFrontend.Grammar.Statement

/-!
Whole programs, line by line. What a line may hold depends on the place where it stands: outside
subroutines, in a body, or in a block. A line that is broken is mended, and the next one is read
at the same place.
-/
namespace PirFrontend.Parser

/-- The name of a subroutine. -/
def subName : Parser String := do
  match ← peekKind 0 with
  | some (.string _) => expectString
  | some .identifier | some (.keyword _) => advanceText
  | _ => unexpected ["subroutine name"]

/-- The flags of a subroutine that take nothing in parentheses. -/
def subFlag? : FlagWord → Option SubFlag
  | .anon => some .anon
  | .init => some .init
  | .load => some .load
  | .main => some .main
  | .method => some .method
  | .lex => some .lex
  | .multi => some .multi
  | .postcomp => some .postcomp
  | .immediate => some .immediate
  | _ => none

/-- What a flag of a subroutine does, once its token was taken. -/
def subFlag (token : Token) (word : FlagWord) : Parser Unit := do
  match word with
  | .outer =>
    expectOperator .leftParen
    let outer ← subName
    expectOperator .rightParen
    Act.change (·.setSubOuter outer)
  | .vtable =>
    let name ← optionalParenString
    Act.change (·.setSubVtable name)
  | .lexid =>
    let id ← parenString
    Act.change (·.setSubLexid id)
  | .instanceof =>
    let name ← parenString
    Act.change (·.setSubInstanceof name)
  | _ =>
    match subFlag? word with
    | some f => Act.change (·.setSubFlags (.single f))
    | none => unexpectedToken token ["subroutine flag"]

/-- One more flag behind the name of a subroutine. Says whether there was one. -/
def nextSubFlag : Parser Bool := do
  match ← peekKind 0 with
  | some (.flag word) =>
    let token ← advance
    subFlag token word
    pure true
  | _ => pure false

/-- The flags behind the name of a subroutine. -/
def subFlags : Parser Unit := Act.repeatWhile nextSubFlag

/-- Where a line stands. -/
inductive Place where
  /-- Outside subroutines. -/
  | top
  /-- In the body of a subroutine. -/
  | body
  /-- In a block of a body. -/
  | block (b : Block)
  deriving DecidableEq, Repr

/-- How many places there are around a place. -/
def Place.depth : Place → Nat
  | top => 0
  | body => 1
  | block _ => 2

theorem Place.depth_le (p : Place) : p.depth ≤ 2 := by
  cases p
  · exact Nat.zero_le 2
  · exact Nat.le_succ 1
  · exact Nat.le_refl 2

/-- The end of a subroutine. -/
def endSub : Parser Place := do
  let _ ← advance
  -- It is closed whatever else stands on the line.
  Act.change (·.closeSub.2)
  Mended.attempt endOfLine ()
  pure .top

/-- Ends a statement; the body goes on. -/
def endStatement : Parser Place := do
  Act.change Builder.dropInstruction
  pure .body

/-- A line of a body, and the place of the next one. A subroutine whose `.end` is missing ends
before the next one or at the end of the text. -/
def bodyLine : Parser Place := do
  skipNewlines
  match ← TokenStream.peek 0 with
  | none =>
    Build.malformed "syntax error, unexpected end of file, expecting '.end'"
    Act.change (·.closeSub.2)
    pure .top
  | some t =>
    Act.change (·.beginStatement t.line)
    match t.kind with
    | .directive .endSub => endSub
    -- The directive stays unread, for the rules outside.
    | .directive .sub =>
      Build.malformed "syntax error, unexpected '.sub', expecting '.end'"
      Act.change (·.closeSub.2)
      pure .top
    | .directive .param =>
      parameter
      endStatement
    | _ =>
      match ← labelledStatement with
      | some block => pure (.block block)
      | none => endStatement

/-- The first line of a subroutine, behind `.sub`. A broken one opens a subroutine all the
same. -/
def subHeader : Mended Unit := do
  match ← Mended.attempt (some <$> subName) none with
  | some name =>
    Act.change fun b => (b.openSub name).2
    Mended.attempt (do subFlags; endOfLine) ()
  -- Without a name it is opened all the same, so that its body is not read as items.
  | none => Act.change fun b => (b.openSub "").2

/-- `.namespace [ "a" ; "b" ]`, or `.namespace` alone for the root. -/
def namespaceItem : Parser Unit := do
  let _ ← advance
  let entries ←
    if ← eatOperator .leftBracket then
      let entries ←
        if ← atOperator 0 .rightBracket then pure [] else separated .semicolon expectString
      expectOperator .rightBracket
      pure entries
    else pure []
  endOfLine
  Act.change (·.setNamespace (Key.ofList? (entries.map .string)))

/-- `.HLL "name"`. -/
def hllItem : Parser Unit := do
  let _ ← advance
  let name ← expectString
  endOfLine
  Act.change (·.setHll name)

/-- `.HLL_map "core" = "hll"`. -/
def hllMapItem : Parser Unit := do
  let _ ← advance
  let core ← expectString
  expectOperator .assign
  let hll ← expectString
  endOfLine
  Act.change (·.setHllMap core hll)

/-- `.loadlib "name"`. -/
def loadlibItem : Parser Unit := do
  let _ ← advance
  let name ← expectString
  endOfLine
  Act.change (·.loadLibrary name)

/-- An item outside subroutines that begins with a directive. -/
def itemDirective (d : Directive) : Parser Unit :=
  match d with
  | .const => constantDeclaration false
  | .globalConst => constantDeclaration true
  | .namespaceDecl => namespaceItem
  | .hll => hllItem
  | .hllMap => hllMapItem
  | .loadlib => loadlibItem
  | _ => unexpected [".sub", ".const", ".namespace", ".HLL", ".HLL_map", ".loadlib"]

/-- A line outside subroutines, and the place of the next one, unless the text is over. -/
def item : Parser (Option Place) := do
  skipNewlines
  match ← TokenStream.peek 0 with
  | none => pure none
  | some t =>
    Act.change (·.beginStatement t.line)
    match t.kind with
    | .directive .sub =>
      let _ ← advance
      subHeader
      pure (some .body)
    | .directive d =>
      itemDirective d
      pure (some .top)
    | _ => unexpected [".sub", ".const", ".namespace", ".HLL", ".HLL_map", ".loadlib"]

/-- A line at a place, and the place of the next one, unless the text is over. -/
def line : Place → Parser (Option Place)
  | .top => item
  | .body => some <$> bodyLine
  | .block block => do
    if ← blockLine block then pure (some (.block block)) else some <$> endStatement

/-- Reads lines from a place on. Each line either reads something or leaves its place for the one
around it. -/
def linesFrom (p : Place) : Mended Unit := fun s =>
  match (Mended.attempt (line p) (some p)).run s with
  | (.ok none, s') => (.ok (), s')
  | (.ok (some q), s') =>
    -- Nothing is read twice at the same place, so the other branch is never taken.
    if s'.size < s.size ∨ s'.size ≤ s.size ∧ q.depth < p.depth then linesFrom q s'
    else (.error stuck, s')
  | (.error f, s') => (.error f, s')
termination_by s => 3 * s.size + p.depth
decreasing_by
  rename_i h
  have := q.depth_le
  omega

/-- A whole program. -/
def program : Mended Unit := linesFrom .top

end PirFrontend.Parser
