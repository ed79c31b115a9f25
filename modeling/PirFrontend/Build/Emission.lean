import PirFrontend.Build.Operand
import PirFrontend.Code.Branch
import PirFrontend.Code.Reduction
import PirFrontend.Value.Truth

/-!
Statements. All of them reach the open subroutine through `emit`, which joins the waiting label
to them; arithmetic is put into its cheaper form first.
-/
namespace PirFrontend

namespace Builder

/-- Begins an instruction whose operands follow. -/
def beginInstruction (b : Builder) (opcode : String) : Builder :=
  { b with pendingInstruction := some (.of opcode []) }

/-- Adds an operand to the instruction that was begun. -/
def pushOperand (b : Builder) (operand : Expression) : Builder :=
  { b with pendingInstruction := b.pendingInstruction.map (·.push operand) }

end Builder

namespace Build

/-- Adds a statement to the open subroutine, under the waiting label. -/
def emit (statement : Statement) : Build Unit := do
  let b ← get
  if b.aborted then throw b.tooManyErrors
  else
    -- The label is used up even if there is no subroutine to emit into.
    set { b with pendingLabel := none }
    let _ ← currentSub
    let statement := statement.labelled b.pendingLabel
    modify (·.modifySub fun s => { s with statements := s.statements ++ [statement] })

def emitOp (opcode : String) (operands : List Expression) : Build Unit :=
  emit (.instruction (.of opcode operands))

/-- Adds an instruction in its cheaper form. A division by zero is reported and kept. -/
def emitReduced (i : Instruction) : Build Unit := do
  let (r, i) := i.reduce
  if r = .divisionByZero then complain (.arithmetic .divisionByZero) else pure ()
  emit (.instruction i)

/-- Ends the instruction that was begun. One with an unknown opcode is reported and kept as
written. -/
def finishInstruction : Build Unit := do
  let b ← get
  match b.pendingInstruction with
  | none => pure ()
  | some i =>
    set { b with pendingInstruction := none }
    if b.opcodes.contains i.opcode then emitReduced i
    else
      complain (.unknownInstruction i.opcode)
      emit (.instruction i)

/-- An instruction with all its operands. -/
def machineInstruction (opcode : String) (operands : List Expression) : Build Unit := do
  modify fun b => operands.foldl Builder.pushOperand (b.beginInstruction opcode)
  finishInstruction

/-- Stores a value under the key of an object. -/
def keyedStore (object : PmcObject) (key : Key) (value : Expression) : Build Unit := do
  let t ← indexedTarget object key
  emitOp "set" [.target t, value]

def nullTarget (t : Target) : Build Unit := emitOp "null" [.target t]

def getResults (targets : List Target) : Build Unit :=
  emitOp "get_results" (targets.map .target)

def gotoLabel (label : String) : Build Unit := emitOp "branch" [.label label]

/-! Assignments -/

/-- Assigns an int. Zero makes the target null. -/
def assignInt (t : Target) (value : Int64) : Build Unit :=
  if value = 0 then nullTarget t else emitOp "set" [.target t, .int value]

/-- Assigns a num. Either zero makes the target null. -/
def assignNum (t : Target) (value : Float) : Build Unit :=
  if value == 0.0 then nullTarget t else emitOp "set" [.target t, .num value]

def assignString (t : Target) (value : String) : Build Unit :=
  emitOp "set" [.target t, .string value]

/-- Assigns a value of any kind. -/
def assignExpression (t : Target) (value : Expression) : Build Unit :=
  match value with
  | .constant ⟨_, .int v⟩ => assignInt t v
  | .constant ⟨_, .num v⟩ => assignNum t v
  | _ => emitOp "set" [.target t, value]

/-- The sources of an operation, without a left one that is the destination itself. -/
def sources (t : Target) (left right : Expression) : List Expression :=
  match left with
  -- `x = x + 1` is done in place.
  | .target s => if s.same t then [right] else [left, right]
  | _ => [left, right]

/-- Assigns the value of an operation. Between constants it is computed now. -/
def assignBinary (t : Target) (left : Expression) (op : BinaryOp) (right : Expression) :
    Build Unit :=
  match left, right with
  | .constant a, .constant b =>
    match fold a op b with
    | .ok c => emitOp "set" [.target t, .constant c]
    -- Nothing is assigned then.
    | .error e => complain (.arithmetic e)
  | _, _ => emitReduced (.of op.opcode (.target t :: sources t left right))

/-- Assigns the value of an operation on one operand. -/
def assignUnary (t : Target) (op : UnaryOp) (value : Expression) : Build Unit :=
  emitOp op.opcode [.target t, value]

/-- Assigns a name alone, or the outcome of an opcode with operands. A name alone is a symbol, a
constant, or an opcode without operands, in this order. -/
def assignOp (t : Target) (name : String) (operands : List Expression) : Build Unit := do
  let b ← get
  match operands with
  | [] =>
    match b.lookup name with
    | some s => emitOp "set" [.target t, .target (.ofSymbol s)]
    | none =>
      match b.lookupConstant name with
      -- Unlike a literal, a named zero is copied as it is.
      | some c => emitOp "set" [.target t, .constant c]
      | none =>
        if b.opcodes.contains name then emitOp name [.target t]
        else complain (.undeclaredSource name)
  | _ =>
    if b.opcodes.contains name then emitReduced (.of name (.target t :: operands))
    else complain (.unknownOperation name)

/-- Assigns the value under a key of a symbol, or the outcome of an opcode on a key. -/
def assignKeyed (t : Target) (name : String) (key : Key) : Build Unit := do
  let b ← get
  -- A symbol hides the opcode of the same name.
  if (b.lookup name).isNone && b.opcodes.contains name then emitOp name [.target t, .key key]
  else
    let source ← indexedTarget (.named name) key
    emitOp "set" [.target t, .target source]

/-- Combines a target with a value. -/
def augmentedAssign (t : Target) (op : BinaryOp) (value : Expression) : Build Unit :=
  emitReduced (.of op.opcode [.target t, value])

/-! Conditions -/

/-- Branches on a target. -/
def conditionalTarget (p : Polarity) (nullCheck : Bool) (t : Target) (label : String) :
    Build Condition := do
  emit (.instruction (p.variableBranch nullCheck t label))
  pure .runtime

/-- Branches on a truth value that is known. -/
def conditionalKnown (p : Polarity) (value : Bool) (label : String) : Build Condition := do
  emit (.instruction (p.constantBranch value label))
  pure (.known value)

/-- Branches on a constant. -/
def conditionalConstant (p : Polarity) (c : Constant) (label : String) : Build Condition :=
  match c.truth with
  | .ok value => conditionalKnown p value label
  -- Only a pmc has no truth value, and no rule hands one in.
  | .error e => throw (.internal e.message)

/-- Branches on a name: a symbol, or a constant unless it is tested for being null. A pmc
constant is tested when the program runs. -/
def conditionalVariable (p : Polarity) (nullCheck : Bool) (name label : String) :
    Build Condition := do
  let b ← get
  match nullCheck, b.lookup name, b.lookupConstant name with
  | false, none, some c =>
    if c.type = .pmc then
      conditionalTarget p false (.ofSymbol (.placeholder name .pmc)) label
    else conditionalConstant p c label
  | _, _, _ =>
    let t ← symbolTarget name
    conditionalTarget p nullCheck t label

/-- Branches on a comparison. Constants are compared now; those that cannot be compared are
reported and left to the running program. -/
def conditionalRelation (p : Polarity) (left : Expression) (op : RelOp) (right : Expression)
    (label : String) : Build Condition := do
  match left, right with
  | .constant a, .constant b =>
    match evaluate a op b with
    | .ok value => conditionalKnown p value label
    -- Reported, and still left to the running program.
    | .error e =>
      complain (.arithmetic e)
      emit (.instruction (p.relationalBranch op left right label))
      pure .runtime
  | _, _ =>
    emit (.instruction (p.relationalBranch op left right label))
    pure .runtime

end Build
end PirFrontend
