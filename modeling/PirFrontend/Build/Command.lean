import PirFrontend.Build.Declaration
import PirFrontend.Build.Frame
import PirFrontend.Build.Invoking

/-!
The commands of the builder, as data. A list of commands is a script that can be run, so what
holds of every way to use the builder is a statement about all scripts.
-/
namespace PirFrontend

/-- One action on the builder, with all it needs. -/
inductive Command where
  | report (kind : DiagnosticKind) (message : String)
  | malformed (message : String)
  | loadLibrary (name : String)
  | setHll (name : String)
  | setHllMap (core hll : String)
  | setNamespace (key : Option Key)
  | declareConstant (name : String) (value : ConstantValue)
  | declareGlobalConstant (name : String) (value : ConstantValue)
  | openSub (name : String)
  | closeSub
  | setSubFlags (flags : FlagSet SubFlag)
  | setSubOuter (name : String)
  | setSubVtable (name : Option String)
  | setSubLexid (id : String)
  | setSubInstanceof (name : String)
  | addParameter (type : ValueType) (name : String) (flags : FlagSet TargetFlag)
      (namedAs invocantType : Option String)
  | beginStatement (line : Nat)
  | setLine (line : Nat)
  | setLabel (name : String)
  | endStatement
  | recoverStatement
  | registerTarget (type : ValueType) (number : Nat)
  | symbolTarget (name : String)
  | identifierValue (name : String)
  | identifierOperand (name : String)
  | indexedTarget (object : PmcObject) (key : Key)
  | pmcObject (object : PmcObject)
  | invocantTarget (object : PmcObject)
  | methodTarget (name : String)
  | beginInstruction (opcode : String)
  | pushOperand (operand : Expression)
  | finishInstruction
  | machineInstruction (opcode : String) (operands : List Expression)
  | keyedStore (object : PmcObject) (key : Key) (value : Expression)
  | nullTarget (t : Target)
  | getResults (targets : List Target)
  | gotoLabel (label : String)
  | assignInt (t : Target) (value : Int64)
  | assignNum (t : Target) (value : Float)
  | assignString (t : Target) (value : String)
  | assignExpression (t : Target) (value : Expression)
  | assignBinary (t : Target) (left : Expression) (op : BinaryOp) (right : Expression)
  | assignUnary (t : Target) (op : UnaryOp) (value : Expression)
  | assignOp (t : Target) (name : String) (operands : List Expression)
  | assignKeyed (t : Target) (name : String) (key : Key)
  | augmentedAssign (t : Target) (op : BinaryOp) (value : Expression)
  | conditionalVariable (p : Polarity) (nullCheck : Bool) (name label : String)
  | conditionalTarget (p : Polarity) (nullCheck : Bool) (t : Target) (label : String)
  | conditionalConstant (p : Polarity) (c : Constant) (label : String)
  | conditionalRelation (p : Polarity) (left : Expression) (op : RelOp) (right : Expression)
      (label : String)
  | declareLocals (type : ValueType) (names : List (String × Bool))
  | declareLexical (name : String) (object : PmcObject)
  | shortInvocation (i : Invocation) (results : List Target)
  | tailcall (i : Invocation)
  | returnArguments (arguments : List Argument)
  | yieldArguments (arguments : List Argument)
  | beginCall
  | beginReturn (kind : CallKind)
  | setArgument (a : Argument)
  | callTarget (callee : Target) (retcont : Option Target)
  | nciCallTarget (callee : Target)
  | setInvocant (invocant : Target)
  | methodCallTarget (method : Expression)
  | getResult (t : Target)
  | endCall
  | isOpcode (name : String)

/-- What a command answers. -/
inductive Reply where
  | done
  | subId (id : Option Nat)
  | operand (e : Expression)
  | condition (c : Condition)
  | truth (b : Bool)

namespace Reply

/-- Runs an action for its effect. -/
def ofUnit (x : Build Unit) : Build Reply := x *> pure done

def ofTarget (x : Build Target) : Build Reply := (operand ∘ .target) <$> x

def ofChange (f : Builder → Builder) : Build Reply := ofUnit (modify f)

end Reply

open Reply in
/-- Runs a command. -/
def Command.run : Command → Build Reply
  | report kind message => ofUnit (Build.report kind message)
  | malformed message => ofUnit (Build.malformed message)
  | loadLibrary name => ofChange (·.loadLibrary name)
  | setHll name => ofChange (·.setHll name)
  | setHllMap core hll => ofChange (·.setHllMap core hll)
  | setNamespace key => ofChange (·.setNamespace key)
  | declareConstant name value => ofUnit (Build.declareConstant name value)
  | declareGlobalConstant name value => ofUnit (Build.declareGlobalConstant name value)
  | openSub name => modifyGet fun b => let (id, b) := b.openSub name; (.subId (some id), b)
  | closeSub => modifyGet fun b => let (id, b) := b.closeSub; (.subId id, b)
  | setSubFlags flags => ofChange (·.setSubFlags flags)
  | setSubOuter name => ofChange (·.setSubOuter name)
  | setSubVtable name => ofChange (·.setSubVtable name)
  | setSubLexid id => ofChange (·.setSubLexid id)
  | setSubInstanceof name => ofChange (·.setSubInstanceof name)
  | addParameter type name flags namedAs invocantType =>
    ofUnit (Build.addParameter type name flags namedAs invocantType)
  | beginStatement line => ofChange (·.beginStatement line)
  | setLine line => ofChange (·.setLine line)
  | setLabel name => ofUnit (Build.setLabel name)
  | endStatement => ofChange Builder.dropInstruction
  | recoverStatement => ofChange Builder.dropInstruction
  | registerTarget type number => pure (.operand (.target (.register type number)))
  | symbolTarget name => ofTarget (Build.symbolTarget name)
  | identifierValue name => operand <$> Build.identifierValue name
  | identifierOperand name => do return .operand ((← get).identifierOperand name)
  | indexedTarget object key => ofTarget (Build.indexedTarget object key)
  | pmcObject object => ofTarget (Build.pmcObject object)
  | invocantTarget object => ofTarget (Build.invocantTarget object)
  | methodTarget name => operand <$> Build.methodTarget name
  | beginInstruction opcode => ofChange (·.beginInstruction opcode)
  | pushOperand e => ofChange (·.pushOperand e)
  | finishInstruction => ofUnit Build.finishInstruction
  | machineInstruction opcode operands => ofUnit (Build.machineInstruction opcode operands)
  | keyedStore object key value => ofUnit (Build.keyedStore object key value)
  | nullTarget t => ofUnit (Build.nullTarget t)
  | getResults targets => ofUnit (Build.getResults targets)
  | gotoLabel label => ofUnit (Build.gotoLabel label)
  | assignInt t value => ofUnit (Build.assignInt t value)
  | assignNum t value => ofUnit (Build.assignNum t value)
  | assignString t value => ofUnit (Build.assignString t value)
  | assignExpression t value => ofUnit (Build.assignExpression t value)
  | assignBinary t left op right => ofUnit (Build.assignBinary t left op right)
  | assignUnary t op value => ofUnit (Build.assignUnary t op value)
  | assignOp t name operands => ofUnit (Build.assignOp t name operands)
  | assignKeyed t name key => ofUnit (Build.assignKeyed t name key)
  | augmentedAssign t op value => ofUnit (Build.augmentedAssign t op value)
  | conditionalVariable p nullCheck name label =>
    condition <$> Build.conditionalVariable p nullCheck name label
  | conditionalTarget p nullCheck t label =>
    condition <$> Build.conditionalTarget p nullCheck t label
  | conditionalConstant p c label => condition <$> Build.conditionalConstant p c label
  | conditionalRelation p left op right label =>
    condition <$> Build.conditionalRelation p left op right label
  | declareLocals type names => ofUnit (Build.declareLocals type names)
  | declareLexical name object => ofUnit (Build.declareLexical name object)
  | shortInvocation i results => ofUnit (Build.shortInvocation i results)
  | tailcall i => ofUnit (Build.tailcall i)
  | returnArguments arguments => ofUnit (Build.returnArguments arguments)
  | yieldArguments arguments => ofUnit (Build.yieldArguments arguments)
  | beginCall => ofChange Builder.beginCall
  | beginReturn kind => ofChange (·.beginReturn kind)
  | setArgument a => ofUnit (Build.setArgument a)
  | callTarget callee retcont => ofUnit (Build.callTarget callee retcont)
  | nciCallTarget callee => ofUnit (Build.nciCallTarget callee)
  | setInvocant invocant => ofUnit (Build.setInvocant invocant)
  | methodCallTarget method => ofUnit (Build.methodCallTarget method)
  | getResult t => ofUnit (Build.getResult t)
  | endCall => ofUnit Build.endCall
  | isOpcode name => do return .truth ((← get).opcodes.contains name)

namespace Builder

/-- One command and its answer. A failure ends the command, not the builder. -/
def perform (b : Builder) (c : Command) : Except Fatal Reply × Builder := c.run.run b

/-- The builder after a script. -/
def performAll (b : Builder) (script : List Command) : Builder :=
  script.foldl (fun b c => (b.perform c).2) b

end Builder
end PirFrontend
