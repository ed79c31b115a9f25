import PirFrontend.Build.Builder

/-!
The frame of a unit: what stands outside subroutines, the beginning and the end of each
subroutine, and the beginning of each statement.
-/
namespace PirFrontend
namespace Builder

def loadLibrary (b : Builder) (name : String) : Builder :=
  { b with unit := { b.unit with libraries := b.unit.libraries ++ [name] } }

def setHll (b : Builder) (name : String) : Builder :=
  { b with unit := { b.unit with hll := some name } }

def setHllMap (b : Builder) (core hll : String) : Builder :=
  { b with unit := { b.unit with hllMap := b.unit.hllMap.insert core hll } }

/-- Sets the namespace of what follows; no key means the root. -/
def setNamespace (b : Builder) (key : Option Key) : Builder :=
  { b with unit := { b.unit with namespaceKey := key } }

/-- Closes the open subroutine and gives its id. What was waiting for it is dropped. -/
def closeSub (b : Builder) : Option Nat × Builder :=
  match b.current with
  | none => (none, b)
  | some s =>
    (some b.unit.subroutines.length,
      { b with
        unit := { b.unit with subroutines := b.unit.subroutines ++ [s] }
        current := none
        pendingLabel := none
        pendingInstruction := none
        pendingCall := none })

/-- Opens a subroutine in the namespace in force and gives its id. One that is still open is
closed first. -/
def openSub (b : Builder) (name : String) : Nat × Builder :=
  let b := b.closeSub.2
  (b.unit.subroutines.length,
    { b with current := some { Subroutine.empty name with namespaceKey := b.unit.namespaceKey } })

def setSubFlags (b : Builder) (flags : FlagSet SubFlag) : Builder :=
  b.modifySub fun s => { s with flags := s.flags.union flags }

def setSubOuter (b : Builder) (name : String) : Builder :=
  b.modifySub fun s => { s with outer := some name }

/-- Enters the open subroutine in the vtable, under its own name if no other is given. -/
def setSubVtable (b : Builder) (name : Option String) : Builder :=
  b.modifySub fun s => { s with vtable := some (name.getD s.name) }

def setSubLexid (b : Builder) (id : String) : Builder :=
  b.modifySub fun s => { s with lexid := some id }

def setSubInstanceof (b : Builder) (name : String) : Builder :=
  b.modifySub fun s => { s with instanceof := some name }

/-- Begins a statement on a line. -/
def beginStatement (b : Builder) (line : Nat) : Builder :=
  { b with line := line, pendingInstruction := none }

/-- Charges problems to another line. -/
def setLine (b : Builder) (line : Nat) : Builder := { b with line := line }

/-- Drops an instruction whose operands are still being collected. Labels and call blocks stay. -/
def dropInstruction (b : Builder) : Builder := { b with pendingInstruction := none }

/-- Closes the open subroutine and gives what was built. -/
def finish (b : Builder) : CompilationUnit × List Diagnostic :=
  let b := b.closeSub.2
  (b.unit, b.diagnostics)

end Builder

namespace Build

/-- Puts a label before the next statement. A label that the subroutine has already keeps its
place. -/
def setLabel (name : String) : Build Unit := do
  let s ← currentSub
  if s.labels.contains name then complain (.duplicateLabel name)
  else
    modify fun b =>
      { b.modifySub fun s => { s with labels := s.labels.insert name s.statements.length } with
        pendingLabel := some name }

end Build
end PirFrontend
