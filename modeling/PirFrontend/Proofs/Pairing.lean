import PirFrontend.Grammar.Program
import PirFrontend.Proofs.Building
import PirFrontend.Proofs.Steps

/-!
Two runs side by side. A pairing says what two runs of the grammar have in common: how their
tokens, what is left of their texts, and their builders are related. If the primitive actions of
the builder keep to a pairing, all rules of the grammar do. With both runs the same, a pairing is
an invariant of one run.
-/
namespace PirFrontend

open PirFrontend.Parser (Place Block)

/-- Tokens that differ in their places only. -/
structure Token.Like (t u : Token) : Prop where
  kind : t.kind = u.kind
  lexeme : t.lexeme = u.lexeme

/-- Steps that are related one by one up to the end of the line; what is behind the newline, or
the end of the text, is related by `start`. -/
inductive InLine (tok : Token → Token → Prop) (err : ParseError → ParseError → Prop)
    (start : List Step → List Step → Prop) : List Step → List Step → Prop
  | nil : start [] [] → InLine tok err start [] []
  | newline {t u : Token} {L M : List Step} : tok t u → t.kind.isNewline = true → start L M →
      InLine tok err start (.ok t :: L) (.ok u :: M)
  | token {t u : Token} {L M : List Step} : tok t u → t.kind.isNewline = false →
      InLine tok err start L M → InLine tok err start (.ok t :: L) (.ok u :: M)
  | fault {f g : LexFault} {L M : List Step} : err (.ofFault f) (.ofFault g) →
      InLine tok err start L M → InLine tok err start (.error f :: L) (.error g :: M)

theorem InLine.imp {tok tok' : Token → Token → Prop} {err err' : ParseError → ParseError → Prop}
    {start start' : List Step → List Step → Prop} {L M : List Step}
    (h : InLine tok err start L M) (htok : ∀ {t u}, tok t u → tok' t u)
    (herr : ∀ {e f}, err e f → err' e f) (hstart : ∀ {L M}, start L M → start' L M) :
    InLine tok' err' start' L M := by
  induction h with
  | nil h => exact .nil (hstart h)
  | newline htu hn h => exact .newline (htok htu) hn (hstart h)
  | token htu hn _ ih => exact .token (htok htu) hn ih
  | fault hfg _ ih => exact .fault (herr hfg) ih

/-! Operands -/

namespace Builder

/-- Builders in which the same names, labels and blocks are known. -/
structure Alike (b c : Builder) : Prop where
  opcodes : b.opcodes = c.opcodes
  constants : b.unit.constants = c.unit.constants
  globalConstants : b.unit.globalConstants = c.unit.globalConstants
  current : b.current = c.current
  pendingInstruction : b.pendingInstruction = c.pendingInstruction
  pendingCall : b.pendingCall = c.pendingCall

/-- A later builder that has only reported problems. -/
structure Within (b b' : Builder) : Prop where
  unit : b'.unit = b.unit
  current : b'.current = b.current
  pendingInstruction : b'.pendingInstruction = b.pendingInstruction
  diagnostics : b.diagnostics <+: b'.diagnostics

/-- The target is a pmc, unless a problem was reported. -/
def PmcOr (b : Builder) (t : Target) : Prop := t.type = .pmc ∨ b.diagnostics ≠ []

/-- The operands that the rules for values make. They hold no label. -/
inductive Made (b : Builder) : Expression → Prop
  | constant (c : Constant) : Made b (.constant c)
  | register (type : ValueType) (number : Nat) : Made b (.target (.register type number))
  | symbol {name : String} {s : Symbol} : b.lookup name = some s → Made b (.target (.ofSymbol s))
  | standIn (name : String) (type : ValueType) : b.diagnostics ≠ [] →
      Made b (.target (.ofSymbol (.placeholder name type)))
  | keyed {t : Target} {k : Key} : Made b (.target t) → b.PmcOr t → Made b (.key k) →
      Made b (.target { t with key := some k })
  | key {first : Expression} {more : List Expression} : Made b first →
      (∀ e ∈ more, Made b e) → Made b (.key ⟨first, more⟩)
  | marked {t : Target} (flags : FlagSet TargetFlag) (namedAs : Option String) :
      Made b (.target t) → Made b (.target { t.addFlags flags with namedAs })

/-- The method of a call. -/
inductive MadeMethod (b : Builder) : Expression → Prop
  | string (s : String) : MadeMethod b (.string s)
  | target {t : Target} : Made b (.target t) →
      t.type = .pmc ∨ t.type = .string ∨ b.diagnostics ≠ [] → MadeMethod b (.target t)

/-- An operand of an instruction, which may also be a label. -/
def MadeSource (b : Builder) (e : Expression) : Prop := b.Made e ∨ ∃ name, e = .label name

/-- The arguments of a call. -/
def MadeArguments (b : Builder) (as : List Argument) : Prop := ∀ a ∈ as, b.Made a.value

/-- The targets of results. -/
def MadeTargets (b : Builder) (ts : List Target) : Prop := ∀ t ∈ ts, b.Made (.target t)

/-- A call on one line. -/
inductive MadeCall (b : Builder) : Invocation → Prop
  | sub {callee : Expression} {as : List Argument} : b.Made callee → b.MadeArguments as →
      MadeCall b (.subCall callee as)
  | method {t : Target} {m : Expression} {as : List Argument} : b.Made (.target t) →
      b.MadeMethod m → b.MadeArguments as → MadeCall b (.methodCall t m as)

/-- The statements that are not the end of a block. -/
inductive MadeStatement (b : Builder) : Statement → Prop
  | instruction {i : Instruction} : (∀ e ∈ i.operands, b.MadeSource e) →
      MadeStatement b (.instruction i)
  /-- A named pmc constant is tested under its name, which no symbol has. -/
  | constantTest {name : String} {c : Constant} (p : Polarity) (label : String) :
      b.lookup name = none → b.lookupConstant name = some c → c.type = .pmc →
      MadeStatement b (.instruction
        (p.variableBranch false (.ofSymbol (.placeholder name .pmc)) label))
  | short {i : Invocation} {results : List Target} : b.MadeCall i → b.MadeTargets results →
      MadeStatement b (.invocation { i with results })
  | tailcall {i : Invocation} : b.MadeCall i → MadeStatement b (.invocation
      { i with kind := match i.kind with | .method => .methodTailcall | _ => .tailcall })
  | returns {arguments : List Argument} : b.MadeArguments arguments →
      MadeStatement b (.invocation { Invocation.empty .returnValues with arguments })
  | yields {arguments : List Argument} : b.MadeArguments arguments →
      MadeStatement b (.invocation { Invocation.empty .yieldValues with arguments })

end Builder

/-! Blocks -/

/-- A directive of a block, with its operands. -/
inductive BlockPart where
  | argument (a : Argument)
  | call (callee : Target) (retcont : Option Target)
  | native (callee : Target)
  | invocant (t : Target)
  | method (m : Expression)
  | result (t : Target)

namespace BlockPart

/-- What the directive makes of the open block. -/
def put : BlockPart → PendingCall → PendingCall
  | argument a, c =>
    { c with invocation := { c.invocation with arguments := c.invocation.arguments ++ [a] } }
  | call callee retcont, c =>
    ⟨{ c.invocation with kind := .pcc, callee := some (.target callee), retcont }, true⟩
  | native callee, c => ⟨{ c.invocation with kind := .nci, callee := some (.target callee) }, true⟩
  | invocant t, c =>
    { c with invocation := { c.invocation with kind := .method, callee := some (.target t) } }
  | method m, c =>
    ⟨{ c.invocation with kind := .method, method := some m }, c.invocation.callee.isSome⟩
  | result t, c =>
    { c with invocation := { c.invocation with results := c.invocation.results ++ [t] } }

/-- The blocks in which the directive may stand. -/
def fits (k : Block) : BlockPart → Prop
  | argument _ => True
  | _ => k = .call

/-- The operands of the directive. -/
def Made (b : Builder) : BlockPart → Prop
  | argument a => b.Made a.value
  | call callee retcont => b.Made (.target callee) ∧ ∀ r ∈ retcont, b.Made (.target r)
  | native callee => b.Made (.target callee)
  | invocant t => b.Made (.target t)
  | method m => b.MadeMethod m
  | result t => b.Made (.target t)

end BlockPart

/-- Two subroutines differ in what stands in their first lines only. -/
structure Subroutine.SameBody (s s' : Subroutine) : Prop where
  namespaceKey : s.namespaceKey = s'.namespaceKey
  parameters : s.parameters = s'.parameters
  lexicals : s.lexicals = s'.lexicals
  constants : s.constants = s'.constants
  statements : s.statements = s'.statements
  labels : s.labels = s'.labels
  symbols : s.symbols = s'.symbols

/-- What is entered in a unit leaves its subroutines and constants as they were. If it sets the
namespace, then to one of strings, whatever the unit was. -/
structure CompilationUnit.KeepsSubs (f : CompilationUnit → CompilationUnit) : Prop where
  subroutines (u) : (f u).subroutines = u.subroutines
  constants (u) : (f u).constants = u.constants
  globalConstants (u) : (f u).globalConstants = u.globalConstants
  namespaceKey : (∀ u, (f u).namespaceKey = u.namespaceKey) ∨
    ∃ names : List String, ∀ u, (f u).namespaceKey = Key.ofList? (names.map .string)

/-! Pairings -/

/-- What is to hold of two runs. -/
structure Pairing where
  tok : Token → Token → Prop
  err : ParseError → ParseError → Prop
  /-- What is left of the texts where a line begins. -/
  start : List Step → List Step → Prop
  /-- The same, but the next lines differ. -/
  askew : List Step → List Step → Prop
  rel : Place → Builder → Builder → Prop
  /-- The builders when a line is over and its statement was built. -/
  past : Place → Builder → Builder → Prop
  /-- Both runs had to stop. -/
  stopped : Fatal → Builder → Fatal → Builder → Prop
  /-- One of the runs had to stop, whatever becomes of the other. -/
  aside : Fatal → Builder → Prop
  /-- The builders when a line was broken that had looked at text that differs. -/
  stray : Place → Builder → Builder → Prop

namespace Pairing

variable {α β : Type}

/-- What is left in the middle of a line. -/
def mid (P : Pairing) : List Step → List Step → Prop := InLine P.tok P.err P.start

/-- What two looks across the end of a line meet. -/
inductive Glimpse (P : Pairing) : List Step → List Step → Prop
  | nil : P.Glimpse [] []
  | token {t u : Token} {L M : List Step} : t.kind = u.kind → P.Glimpse (.ok t :: L) (.ok u :: M)
  | fault {f g : LexFault} {L M : List Step} : P.err (.ofFault f) (.ofFault g) → P.start L M →
      P.Glimpse (.error f :: L) (.error g :: M)

/-- Looks into lines that are related step by step. -/
theorem glimpse_mid {P : Pairing} {L M : List Step} (hmid : P.mid L M) (h : P.start L M)
    (hlike : ∀ {t u}, P.tok t u → t.Like u)
    (hfault : ∀ {f g L M}, P.start (.error f :: L) (.error g :: M) → P.start L M) :
    P.Glimpse L M := by
  cases hmid with
  | nil _ => exact .nil
  | newline htok _ _ => exact .token (hlike htok).kind
  | token htok _ _ => exact .token (hlike htok).kind
  | fault he _ => exact .fault he (hfault h)

/-- How an action on two builders ends. -/
inductive Agree (P : Pairing) (Q : α → Builder → Builder → Prop) :
    Except Fatal α × Builder → Except Fatal α × Builder → Prop
  | ok {a : α} {b c : Builder} : Q a b c → P.Agree Q (.ok a, b) (.ok a, c)
  | stopped {f g : Fatal} {b c : Builder} : P.stopped f b g c →
      P.Agree Q (.error f, b) (.error g, c)
  | left {f : Fatal} {b : Builder} {r : Except Fatal α × Builder} : P.aside f b →
      P.Agree Q (.error f, b) r
  | right {f : Fatal} {c : Builder} {r : Except Fatal α × Builder} : P.aside f c →
      P.Agree Q r (.error f, c)

/-- Two builders on which an action builds the same when a line is over. -/
def Keeps (P : Pairing) (p : Place) (x : Build α) (b c : Builder) : Prop :=
  P.Agree (fun _ => P.past p) (x.run b) (x.run c)

end Pairing

/-- What reading asks of a pairing. Nothing that is reported while reading is malformed text. -/
class Pairing.Readable (P : Pairing) : Prop where
  like {t u} : P.tok t u → t.Like u
  unexpected {t u} (expected) : P.tok t u → P.err (.unexpected t expected) (.unexpected u expected)
  endOfInput (expected) : P.err (.endOfInput expected) (.endOfInput expected)
  alike {p b c} : P.rel p b c → b.Alike c
  report {p b c} {kind} (message) : kind ≠ .malformed → P.rel p b c →
    P.Agree (fun _ => P.rel p) ((Build.report kind message).run b)
      ((Build.report kind message).run c)
  passed {p b c} : P.rel p b c → P.past p b c

open Pairing in
/-- What a statement asks of a pairing: its actions build the same when its line is over. -/
class Pairing.Buildable (P : Pairing) : Prop extends P.Readable where
  glimpse {L M} : P.start L M → P.Glimpse L M ∨ P.askew L M
  -- Where the texts differ, so may the problems that are reported.
  strays {p b c} : P.rel p b c → P.stray p b c
  astray_left {L M p b c} (kind message) : P.askew L M → P.stray p b c →
    match (Build.report kind message).run b with
    | (.ok _, b') => P.stray p b' c
    | (.error f, b') => P.aside f b'
  astray_right {L M p b c} (kind message) : P.askew L M → P.stray p b c →
    match (Build.report kind message).run c with
    | (.ok _, c') => P.stray p b c'
    | (.error f, c') => P.aside f c'
  instruction {b c} (i) : P.rel .body b c →
    P.rel .body { b with pendingInstruction := i } { c with pendingInstruction := i }
  emit {b c s} : P.rel .body b c → b.MadeStatement s → P.Keeps .body (Build.emit s) b c
  beginBlock {b c} (k : Block) : P.rel .body b c → b.pendingInstruction = none →
    P.past (.block k) (k.beginning b) (k.beginning c)
  -- Declarations
  declareConstant {p b c} (name value) : P.rel p b c →
    P.Keeps p (Build.declareConstant name value) b c
  declareGlobalConstant {p b c} (name value) : P.rel p b c →
    P.Keeps p (Build.declareGlobalConstant name value) b c
  declareLocal {p b c} (name type uniqueReg) : p ≠ .top → P.past p b c →
    P.Keeps p (Build.declareSymbol name type uniqueReg fun _ s => s) b c
  addParameter {b c} (type name flags namedAs invocantType) : P.rel .body b c →
    P.Keeps .body (Build.addParameter type name flags namedAs invocantType) b c
  addLexical {b c t} (name) : P.rel .body b c → b.Made (.target t) → b.PmcOr t →
    P.Keeps .body (Build.bindLexical name t) b c

/-- The action that mends a broken rule, as far as it concerns the builder. -/
def Build.mend (e : ParseError) : Build Unit := do
  match e.line? with
  | some line => modify (·.setLine line)
  | none => pure ()
  Build.malformed e.message

theorem Build.run_mend (e : ParseError) (b : Builder) : (mend e).run b =
    (malformed e.message).run (b.setLine (e.line?.getD b.line)) := by
  unfold mend
  cases e.line? <;> rfl

open Pairing in
/-- The primitive actions keep to a pairing. -/
class Pairing.Lawful (P : Pairing) : Prop extends P.Buildable where
  /-- The next line begins as the one before it ended. -/
  next {p b c} : P.past p b c → P.rel p b c
  line {p b c t u} : P.tok t u → P.rel p b c → P.rel p (b.setLine t.line) (c.setLine u.line)
  malformed {p b c} (message) : P.rel p b c → P.Keeps p (Build.malformed message) b c
  mend {p b c e e'} : P.err e e' → P.rel p b c →
    P.Agree (fun _ => P.rel p) ((Build.mend e).run b) ((Build.mend e').run c)
  drop {p b c} : P.rel p b c → P.rel p b.dropInstruction c.dropInstruction
  setLabel {b c} (name) : P.rel .body b c → P.Keeps .body (Build.setLabel name) b c
  -- Blocks
  leaveBlock {b c k} : P.rel (.block k) b c → P.rel .body b c
  changeCall {b c k} {part : BlockPart} : P.rel (.block k) b c → part.fits k → part.Made b →
    P.Keeps (.block k) (Build.changeCall part.put) b c
  endCall {b c k} : P.rel (.block k) b c →
    P.Agree (fun _ => P.rel .body) (Build.endCall.run b) (Build.endCall.run c)
  -- Subroutines and the unit
  openSub {b c} (name) : P.rel .top b c → P.rel .body (b.openSub name).2 (c.openSub name).2
  closeSub {b c} : P.rel .body b c → P.rel .top b.closeSub.2 c.closeSub.2
  modifySub {b c} {f : Subroutine → Subroutine} : P.rel .body b c → (∀ s, (f s).SameBody s) →
    P.rel .body (b.modifySub f) (c.modifySub f)
  modifyUnit {b c} {f : CompilationUnit → CompilationUnit} : P.rel .top b c →
    CompilationUnit.KeepsSubs f → P.rel .top { b with unit := f b.unit } { c with unit := f c.unit }

/-- Behind a line the next one can be read with the same pairing. -/
class Pairing.Continuing (P : Pairing) : Prop extends P.Lawful where
  start_cases {L M} : P.start L M → P.mid L M ∨ P.askew L M

end PirFrontend
