import PirFrontend.Build.Emission

/-!
Calls and returns. Short ones are emitted at once; a block is collected line by line and emitted
when it ends.
-/
namespace PirFrontend

namespace Builder

/-- Begins a call block. -/
def beginCall (b : Builder) : Builder :=
  { b with pendingCall := some ⟨.empty .pcc, false⟩ }

/-- Begins a block that returns or yields; it needs nothing to call. -/
def beginReturn (b : Builder) (kind : CallKind) : Builder :=
  { b with pendingCall := some ⟨.empty kind, true⟩ }

end Builder

namespace Build

/-- A call on one line, with the targets of its results. -/
def shortInvocation (i : Invocation) (results : List Target) : Build Unit :=
  emit (.invocation { i with results })

/-- A call in place of the running subroutine. -/
def tailcall (i : Invocation) : Build Unit :=
  let kind := match i.kind with
    | .method => .methodTailcall
    | _ => .tailcall
  emit (.invocation { i with kind })

/-- Returns values. -/
def returnArguments (arguments : List Argument) : Build Unit :=
  emit (.invocation { Invocation.empty .returnValues with arguments })

/-- Yields values. -/
def yieldArguments (arguments : List Argument) : Build Unit :=
  emit (.invocation { Invocation.empty .yieldValues with arguments })

/-- Changes the open call block. -/
def changeCall (f : PendingCall → PendingCall) : Build Unit := do
  let c ← currentCall
  modify fun b => { b with pendingCall := some (f c) }

def setArgument (a : Argument) : Build Unit :=
  changeCall fun c =>
    { c with invocation := { c.invocation with arguments := c.invocation.arguments ++ [a] } }

/-- Makes the block call a subroutine. -/
def callTarget (callee : Target) (retcont : Option Target) : Build Unit :=
  changeCall fun c =>
    ⟨{ c.invocation with kind := .pcc, callee := some (.target callee), retcont }, true⟩

/-- Makes the block call a native function. -/
def nciCallTarget (callee : Target) : Build Unit :=
  changeCall fun c => ⟨{ c.invocation with kind := .nci, callee := some (.target callee) }, true⟩

/-- Names the object of the block's method call. -/
def setInvocant (invocant : Target) : Build Unit :=
  -- Whether the block knows what to call stays as it was.
  changeCall fun c =>
    { c with
      invocation := { c.invocation with kind := .method, callee := some (.target invocant) } }

/-- Makes the block call a method. That is something to call only if the object is known. -/
def methodCallTarget (method : Expression) : Build Unit :=
  changeCall fun c =>
    ⟨{ c.invocation with kind := .method, method := some method }, c.invocation.callee.isSome⟩

def getResult (t : Target) : Build Unit :=
  changeCall fun c =>
    { c with invocation := { c.invocation with results := c.invocation.results ++ [t] } }

/-- Ends the block and emits it. A block without anything to call is reported and dropped. -/
def endCall : Build Unit := do
  let b ← get
  match b.pendingCall with
  | none => complain .blockWithoutBegin
  | some c =>
    -- The block is closed whatever becomes of it.
    set { b with pendingCall := none }
    if c.hasTarget then emit (.invocation c.invocation) else complain .blockWithoutTarget

end Build
end PirFrontend
