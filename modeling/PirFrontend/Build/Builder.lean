import PirFrontend.Build.Diagnostic
import PirFrontend.Code.Opcode
import PirFrontend.Code.Subroutine

/-!
The builder: a unit under construction, the open subroutine, and what is still to be joined to
its next statement. Actions on it either finish or fail for good; every other problem is reported
and building goes on. The report of one problem more than is tolerated aborts the builder, and no
later action reports or emits anything.
-/
namespace PirFrontend

/-- What the user chooses. -/
structure BuildOptions where
  /-- How many problems are tolerated. -/
  maxErrors : Nat
  /-- Names that count as opcodes besides those of the machine. -/
  extraOpcodes : List String
  /-- Whether labels are checked at the end. -/
  verifyLabels : Bool
  deriving DecidableEq, Repr

def BuildOptions.standard : BuildOptions := ⟨10, [], true⟩

/-- An object that has to be a pmc: a declared name or a `$P` register. -/
inductive PmcObject where
  | named (name : String)
  | register (number : Nat)
  deriving DecidableEq, Repr

/-- A call block that is still open, and whether it knows what to call. -/
structure PendingCall where
  invocation : Invocation
  hasTarget : Bool

/-- The state of a build. -/
structure Builder where
  options : BuildOptions
  opcodes : OpcodeTable
  /-- The unit, with the subroutines that are closed. -/
  unit : CompilationUnit
  /-- The open subroutine. -/
  current : Option Subroutine
  /-- The label that waits for the next statement. -/
  pendingLabel : Option String
  /-- The instruction whose operands are being collected. -/
  pendingInstruction : Option Instruction
  /-- The call block that is being collected. -/
  pendingCall : Option PendingCall
  diagnostics : List Diagnostic
  /-- The line to which problems are charged. -/
  line : Nat
  /-- Whether building was given up. -/
  aborted : Bool

/-- An action on the builder. What it did before it failed stays done. -/
abbrev Build := ExceptT Fatal (StateM Builder)

namespace Builder

/-- The builder of an empty unit. -/
def new (options : BuildOptions) : Builder :=
  ⟨options, OpcodeTable.parrot.extend options.extraOpcodes, .empty, none, none, none, none, [], 1,
    false⟩

/-- Whether more problems were entered than are tolerated. -/
def overfull (b : Builder) : Bool := b.options.maxErrors < b.diagnostics.length

def tooManyErrors (b : Builder) : Fatal := .tooManyErrors b.diagnostics.length

/-- Enters a problem on the current line. -/
def record (b : Builder) (kind : DiagnosticKind) (message : String) : Builder :=
  { b with diagnostics := b.diagnostics ++ [⟨kind, message, b.line⟩] }

/-- The declared symbol with a name. -/
def lookup (b : Builder) (name : String) : Option Symbol :=
  b.current.bind (·.symbols.lookup name)

/-- The constant with a name: that of the subroutine, else of the file, else the global one. -/
def lookupConstant (b : Builder) (name : String) : Option Constant :=
  (b.current.bind (·.constants.get? name)).or
    ((b.unit.constants.get? name).or (b.unit.globalConstants.get? name))

def inCallBlock (b : Builder) : Bool := b.pendingCall.isSome

/-- Changes the open subroutine, if there is one. -/
def modifySub (b : Builder) (f : Subroutine → Subroutine) : Builder :=
  { b with current := b.current.map f }

end Builder

namespace Build

/-- Reports a problem on the current line. If that is one too many, building is given up; it fails
then, and if it was given up before. -/
def report (kind : DiagnosticKind) (message : String) : Build Unit := do
  let b ← get
  if b.aborted then throw b.tooManyErrors
  else
    -- The problem that is one too many is still entered.
    let b := b.record kind message
    if b.overfull then
      set { b with aborted := true }
      throw b.tooManyErrors
    else set b

def complain (p : Problem) : Build Unit := report p.kind p.message

def malformed (message : String) : Build Unit := report .malformed message

def currentSub : Build Subroutine := do
  match (← get).current with
  | some s => pure s
  | none => throw (.internal "no subroutine is open")

def currentCall : Build PendingCall := do
  match (← get).pendingCall with
  | some c => pure c
  | none => throw (.internal "no call block is open")

end Build
end PirFrontend
