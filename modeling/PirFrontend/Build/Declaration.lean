import PirFrontend.Build.Operand

/-!
Declarations: constants, parameters, locals and lexicals. The first declaration of a name stands;
another one is reported and dropped.
-/
namespace PirFrontend
namespace Build

/-- Declares a constant of the open subroutine or, outside of one, of the file. -/
def declareConstant (name : String) (value : ConstantValue) : Build Unit := do
  let c := Constant.named name value
  let b ← get
  match b.current with
  | some s =>
    if s.constants.contains name then complain (.duplicateConstant name)
    else set (b.modifySub fun s => { s with constants := s.constants.insert name c })
  | none =>
    if b.unit.constants.contains name then complain (.duplicateConstant name)
    else set { b with unit := { b.unit with constants := b.unit.constants.insert name c } }

/-- Declares a constant for every file. -/
def declareGlobalConstant (name : String) (value : ConstantValue) : Build Unit := do
  let b ← get
  if b.unit.globalConstants.contains name then complain (.duplicateConstant name)
  else
    let table := b.unit.globalConstants.insert name (Constant.named name value)
    set { b with unit := { b.unit with globalConstants := table } }

/-- Declares a symbol of the open subroutine. `attach` says what else the symbol brings there. -/
def declareSymbol (name : String) (type : ValueType) (uniqueReg : Bool)
    (attach : Symbol → Subroutine → Subroutine) : Build Unit := do
  let s ← currentSub
  match s.symbols.declare name type uniqueReg with
  | .ok (symbol, table) =>
    modify (·.modifySub fun s => attach symbol { s with symbols := table })
  | .error e => complain (.duplicateSymbol e)

def addParameter (type : ValueType) (name : String) (flags : FlagSet TargetFlag)
    (namedAs invocantType : Option String) : Build Unit :=
  declareSymbol name type (flags.contains .uniqueReg) fun symbol s =>
    let target := { (Target.ofSymbol symbol).addFlags flags with namedAs := namedAs }
    { s with parameters := s.parameters ++ [⟨target, invocantType⟩] }

/-- Declares locals of one type, each perhaps with a register of its own. -/
def declareLocals (type : ValueType) : List (String × Bool) → Build Unit
  | [] => pure ()
  | (name, uniqueReg) :: rest => do
    declareSymbol name type uniqueReg fun _ s => s
    declareLocals type rest

/-- Binds a target to a lexical name. -/
def bindLexical (name : String) (target : Target) : Build Unit := do
  let _ ← currentSub
  let lexical : Lexical := ⟨name, { target with lexName := some name }⟩
  modify (·.modifySub fun s => { s with lexicals := s.lexicals ++ [lexical] })

/-- Binds an object to a lexical name. -/
def declareLexical (name : String) (object : PmcObject) : Build Unit := do
  let target ← pmcTarget object .undeclaredLexical .lexicalNotPmc
  bindLexical name target

end Build
end PirFrontend
