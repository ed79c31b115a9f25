import PirFrontend.Build.Invoking
import PirFrontend.Grammar.Declaration

/-!
Blocks that spell out a call, a return or a yield over several lines. A block is begun by a
statement and read line by line; one that is never ended leaves the line that shows it to the
rules outside.
-/
namespace PirFrontend.Parser

/-- The kinds of block. -/
inductive Block where
  | call | returns | yields
  deriving DecidableEq, Repr

namespace Block

/-- The directive that passes an argument in the block. -/
def passing : Block → Directive
  | call => .setArg
  | returns => .setReturn
  | yields => .setYield

/-- The directive that ends the block. -/
def ending : Block → Directive
  | call => .endCall
  | returns => .endReturn
  | yields => .endYield

/-- The block that a directive begins, if it begins one. -/
def begunBy? : Directive → Option Block
  | .beginCall => some call
  | .beginReturn => some returns
  | .beginYield => some yields
  | _ => none

/-- What may come next in a block. -/
def expected (b : Block) : List String := [b.passing.spelling, b.ending.spelling]

/-- The change of the builder at the beginning of the block. -/
def beginning : Block → Builder → Builder
  | call => Builder.beginCall
  | returns => (·.beginReturn .returnValues)
  | yields => (·.beginReturn .yieldValues)

end Block

/-- `.call sub` or `.call sub, continuation`. -/
def calledSub : Parser Unit := do
  let _ ← advance
  let callee ← Build.pmcObject (← pmcObject)
  let retcont ← if ← eatOperator .comma then
      some <$> (do Build.pmcObject (← pmcObject))
    else pure none
  endOfLine
  Build.callTarget callee retcont

/-- `.nci_call function`. -/
def calledNative : Parser Unit := do
  let _ ← advance
  let callee ← Build.pmcObject (← pmcObject)
  endOfLine
  Build.nciCallTarget callee

/-- `.invocant object`. -/
def invocant : Parser Unit := do
  let _ ← advance
  let t ← Build.invocantTarget (← pmcObject)
  endOfLine
  Build.setInvocant t

/-- `.meth_call method`. -/
def calledMethod : Parser Unit := do
  let _ ← advance
  let m ← method
  endOfLine
  Build.methodCallTarget m

/-- `.get_result target`. -/
def result : Parser Unit := do
  let _ ← advance
  let t ← resultTarget
  endOfLine
  Build.getResult t

/-- The directive that passes an argument, with its argument. -/
def passedArgument : Parser Unit := do
  let _ ← advance
  let a ← argument
  endOfLine
  Build.setArgument a

/-- The directives that only a call block has. -/
def callDirective (d : Directive) : Parser Unit :=
  match d with
  | .call => calledSub
  | .nciCall => calledNative
  | .invocant => invocant
  | .methCall => calledMethod
  | .getResult => result
  | .localDecl => localDeclaration
  | _ => unexpected Block.call.expected

/-- A line of a block that begins with a directive. Says whether the block goes on. -/
def blockDirective (block : Block) (d : Directive) : Parser Bool := do
  if d = block.ending then
    let _ ← advance
    endOfLine
    Build.endCall
    pure false
  -- The directive stays unread: it ends or begins a subroutine.
  else if d = .endSub ∨ d = .sub then
    Build.malformed s!"syntax error, unexpected '{d.spelling}', expecting '{block.ending.spelling}'"
    pure false
  else if d = block.passing then
    passedArgument
    pure true
  else if block = .call then
    callDirective d
    pure true
  else unexpected block.expected

/-- A line of a block. Says whether the block goes on. -/
def blockLine (block : Block) : Parser Bool := do
  skipNewlines
  match ← TokenStream.peek 0 with
  | none =>
    Build.malformed
      s!"syntax error, unexpected end of file, expecting '{block.ending.spelling}'"
    pure false
  | some t =>
    Act.change (·.setLine t.line)
    match t.kind with
    | .directive d => blockDirective block d
    | _ => unexpected block.expected

/-- The first line of a block. -/
def blockHeader (block : Block) : Parser Unit := do
  let _ ← advance
  endOfLine
  Act.change block.beginning

end PirFrontend.Parser
