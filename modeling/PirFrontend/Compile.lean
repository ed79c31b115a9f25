import PirFrontend.Code.LabelCheck
import PirFrontend.Grammar.Program

/-!
From a source text to a unit: reading, building, and the check of labels.
-/
namespace PirFrontend

/-- The start of a build from a source text. -/
def Session.start (source : String) (options : BuildOptions) : Session :=
  ⟨.ofLexer (.ofString 0 source), .new options⟩

/-- Reads a whole program. Gives the failure that stopped it, if one did. -/
def Session.readProgram (s : Session) : Option Fatal × Session :=
  match Parser.program.run s with
  | (.ok _, s) => (none, s)
  | (.error f, s) => (some f, s)

/-- What was built. Problems that were tolerated may remain. -/
structure Compiled where
  unit : CompilationUnit
  diagnostics : List Diagnostic
  labelFaults : List LabelFault

/-- Whether there was no problem at all. -/
def Compiled.isClean (c : Compiled) : Bool := c.diagnostics.isEmpty && c.labelFaults.isEmpty

/-- A build that was given up, with what was reported until then. -/
structure CompileError where
  cause : Fatal
  diagnostics : List Diagnostic
  deriving DecidableEq, Repr

def CompileError.message (e : CompileError) : String :=
  match e.cause with
  | .tooManyErrors _ => (Fatal.tooManyErrors e.diagnostics.length).message
  | .internal reason => (Fatal.internal reason).message

/-- Compiles a source text. -/
def compile (source : String) (options : BuildOptions) : Except CompileError Compiled :=
  let (outcome, s) := (Session.start source options).readProgram
  let (unit, diagnostics) := s.builder.finish
  match outcome with
  | some cause => .error ⟨cause, diagnostics⟩
  | none =>
    .ok ⟨unit, diagnostics, if options.verifyLabels then unit.labelFaults else []⟩

end PirFrontend
