import PirFrontend.Grammar.Value

/-!
Calls: what is called, with which arguments, and where the results go.
-/
namespace PirFrontend.Parser

/-- A method name behind a dot. -/
def method : Parser Expression := do
  match ← peekKind 0 with
  | some .identifier | some (.keyword _) => do
    let name ← advanceText
    Build.methodTarget name
  | some (.register .pmc _) | some (.register .string _) => return .target (← target)
  | some (.string _) => return .string (← expectString)
  | _ => unexpected ["method"]

/-- One more flag behind an argument, if there is one. -/
def nextArgumentFlag (a : Argument) : Parser (Argument × Bool) := do
  match ← peekKind 0 with
  | some (.flag .flat) =>
    let _ ← advance
    return ({ a with flags := a.flags.insert .flat }, true)
  | some (.flag .named) =>
    let _ ← advance
    let namedAs ← optionalParenString
    return ({ a with flags := a.flags.insert .named, namedAs }, true)
  | some (.flag _) => unexpected ["':flat'", "':named'"]
  | _ => return (a, false)

/-- The flags behind an argument. -/
def argumentFlags (a : Argument) : Parser Argument := Act.iterate nextArgumentFlag a

/-- An argument: a value with flags, or a value under a name. -/
def argument : Parser Argument := do
  match ← peekKind 0 with
  | some (.string name) =>
    if ← atOperator 1 .fatArrow then
      let _ ← advance
      let _ ← advance
      return .named name (← value)
    else argumentFlags (.positional (← value))
  | _ => argumentFlags (.positional (← value))

/-- The arguments of a call. -/
def arguments : Parser (List Argument) := parenthesized argument

/-- A call of a subroutine or a method. -/
def invocation : Parser Invocation := do
  match ← peekKind 0 with
  | none => unexpected ["sub or method call"]
  | some (.string name) =>
    let _ ← advance
    return .subCall (.string name) (← arguments)
  | some _ =>
    let object ← pmcObject
    if ← eatOperator .dot then
      let invocant ← Build.invocantTarget object
      let m ← method
      return .methodCall invocant m (← arguments)
    else
      let callee ← Build.pmcObject object
      return .subCall (.target callee) (← arguments)

/-- What the flags behind a parameter or a result say. -/
structure TargetMarks where
  flags : FlagSet TargetFlag
  namedAs : Option String
  invocant : Option String

/-- The flag of a target that a word stands for. -/
def targetFlag? (allowInvocant : Bool) : FlagWord → Option TargetFlag
  | .optional => some .optional
  | .optFlag => some .optFlag
  | .slurpy => some .slurpy
  | .uniqueReg => some .uniqueReg
  | .named => some .named
  | .invocant => if allowInvocant then some .invocant else none
  | _ => none

/-- The type in the parentheses behind `:invocant`. -/
def invocantType : Parser String := do
  expectOperator .leftParen
  let type ← match ← peekKind 0 with
    | some (.string _) => expectString
    | _ => expectName "invocant type"
  expectOperator .rightParen
  pure type

/-- One more flag behind a parameter or a result, if there is one. -/
def nextTargetMark (allowInvocant : Bool) (marks : TargetMarks) : Parser (TargetMarks × Bool) := do
  match ← peekKind 0 with
  | some (.flag word) =>
    match targetFlag? allowInvocant word with
    | none => unexpected ["target flag"]
    | some f =>
      let marks := { marks with flags := marks.flags.insert f }
      let _ ← advance
      match f with
      | .named => return ({ marks with namedAs := ← optionalParenString }, true)
      | .invocant => return ({ marks with invocant := some (← invocantType) }, true)
      | _ => return (marks, true)
  | _ => return (marks, false)

/-- The flags behind a parameter or a result. -/
def targetMarks (allowInvocant : Bool) : Parser TargetMarks :=
  Act.iterate (nextTargetMark allowInvocant) ⟨.empty, none, none⟩

/-- The target of a result, with its flags. -/
def resultTarget : Parser Target := do
  let t ← target
  let marks ← targetMarks false
  return { t.addFlags marks.flags with namedAs := marks.namedAs }

/-- The targets of results. -/
def resultTargets : Parser (List Target) := parenthesized resultTarget

end PirFrontend.Parser
