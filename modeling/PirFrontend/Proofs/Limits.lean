import PirFrontend.Build.Command
import PirFrontend.Proofs.Building

/-!
Actions of a build that was given up. Such an action is refused as soon as it reports a problem or
emits a statement. One that does neither does the same under every limit on the problems, for
nothing else depends on the limit.
-/
namespace PirFrontend
namespace Builder

/-- The same builder where this many problems are tolerated. It is given up only if more were
entered. -/
def withLimit (b : Builder) (n : Nat) : Builder :=
  { b with
    options := { b.options with maxErrors := n }
    aborted := n < b.diagnostics.length }

end Builder

namespace Build

variable {α β : Type}

/-- How an action ends in a build that was given up, and where another number of problems is
tolerated: either it is refused, or the limit makes no difference. -/
inductive Ends (b : Builder) (n : Nat) : Except Fatal α × Builder → Except Fatal α × Builder → Prop
  | refused {c : Builder} {r : Except Fatal α × Builder} :
      Ends b n (.error (.tooManyErrors b.diagnostics.length), c) r
  | same {r : Except Fatal α} {c : Builder} : b.SameProblems c →
      Ends b n (r, c) (r, c.withLimit n)

/-- In a build that was given up the action is refused as soon as it reports or emits; if it does
neither, the limit makes no difference to it. -/
def Heeds (x : Build α) : Prop :=
  ∀ (b : Builder) (n : Nat), b.aborted = true → Ends b n (x.run b) (x.run (b.withLimit n))

theorem Heeds.pure (a : α) : (pure a : Build α).Heeds := fun _ _ _ => .same ⟨rfl, rfl, rfl⟩

theorem Heeds.throw (e : Fatal) : (throw e : Build α).Heeds := fun _ _ _ => .same ⟨rfl, rfl, rfl⟩

/-- The action may begin later than the comparison, if no problem was entered in between. -/
theorem Heeds.ends {x : Build α} (hx : x.Heeds) {b c : Builder} (n : Nat)
    (hsame : b.SameProblems c) (hb : b.aborted = true) :
    Ends b n (x.run c) (x.run (c.withLimit n)) := by
  have hends := hx c n (hsame.aborted.trans hb)
  revert hends
  generalize x.run c = r
  generalize x.run (c.withLimit n) = r'
  intro hends
  cases hends with
  | refused =>
    rw [hsame.diagnostics]
    exact .refused
  | same h => exact .same (hsame.trans h)

theorem Heeds.bind {x : Build α} {f : α → Build β} (hx : x.Heeds) (hf : ∀ a, (f a).Heeds) :
    (x >>= f).Heeds := by
  intro b n hb
  have hends := hx b n hb
  rw [run_bind, run_bind]
  revert hends
  generalize x.run b = r
  generalize x.run (b.withLimit n) = r'
  intro hends
  cases hends with
  | refused => exact .refused
  | @same r c hsame =>
    cases r with
    | error e => exact .same hsame
    | ok a => exact (hf a).ends n hsame hb

theorem Heeds.map {x : Build α} (hx : x.Heeds) (g : α → β) : (g <$> x).Heeds :=
  hx.bind fun _ => .pure _

/-- What depends on the builder, but not on the limit. -/
theorem Heeds.get {f : Builder → Build α} (hf : ∀ b, (f b).Heeds)
    (hn : ∀ b n, f (b.withLimit n) = f b) : (do f (← get)).Heeds := by
  intro b n hb
  have hends := hf b b n hb
  rw [run_bind, run_bind]
  simp only [run_get]
  rwa [hn]

/-- A change that neither enters a problem nor depends on the limit. -/
theorem Heeds.modify {g : Builder → Builder} (hg : ∀ b : Builder, b.SameProblems (g b))
    (hn : ∀ b n, g (b.withLimit n) = (g b).withLimit n) : (modify g : Build PUnit).Heeds := by
  intro b n _
  rw [run_modify, run_modify, hn]
  exact .same (hg b)

/-! Reporting and emitting -/

theorem report_heeds (kind : DiagnosticKind) (message : String) : (report kind message).Heeds := by
  intro b n hb
  rw [run_report, if_pos hb]
  exact .refused

theorem complain_heeds (p : Problem) : (complain p).Heeds := report_heeds _ _

theorem emit_heeds (st : Statement) : (emit st).Heeds := by
  intro b n hb
  rw [run_emit_refused hb]
  exact .refused

theorem emitOp_heeds (opcode : String) (operands : List Expression) :
    (emitOp opcode operands).Heeds :=
  emit_heeds _

theorem emitReduced_heeds (i : Instruction) : (emitReduced i).Heeds := by
  unfold emitReduced
  dsimp only
  split
  · exact (complain_heeds _).bind fun _ => emit_heeds _
  · exact emit_heeds _

/-! Declarations -/

theorem currentSub_heeds : currentSub.Heeds := by
  refine .get (fun b => ?_) fun _ _ => rfl
  split
  · exact .pure _
  · exact .throw _

theorem modifySub_heeds (f : Subroutine → Subroutine) :
    (modify (·.modifySub f) : Build PUnit).Heeds :=
  .modify (fun _ => ⟨rfl, rfl, rfl⟩) fun _ _ => rfl

theorem declareConstant_heeds (name : String) (value : ConstantValue) :
    (declareConstant name value).Heeds := by
  intro b n hb
  cases hs : b.current with
  | some s =>
    have hs' : (b.withLimit n).current = some s := hs
    rw [run_declareConstant_sub hs, run_declareConstant_sub hs']
    split
    · exact complain_heeds _ b n hb
    · exact .same ⟨rfl, rfl, rfl⟩
  | none =>
    have hs' : (b.withLimit n).current = none := hs
    rw [run_declareConstant_file hs, run_declareConstant_file hs']
    show Ends b n _ (if b.unit.constants.contains name then _ else _)
    split
    · exact complain_heeds _ b n hb
    · exact .same ⟨rfl, rfl, rfl⟩

theorem declareGlobalConstant_heeds (name : String) (value : ConstantValue) :
    (declareGlobalConstant name value).Heeds := by
  intro b n hb
  rw [run_declareGlobalConstant, run_declareGlobalConstant]
  show Ends b n _ (if b.unit.globalConstants.contains name then _ else _)
  split
  · exact complain_heeds _ b n hb
  · exact .same ⟨rfl, rfl, rfl⟩

theorem declareSymbol_heeds (name : String) (type : ValueType) (uniqueReg : Bool)
    (attach : Symbol → Subroutine → Subroutine) :
    (declareSymbol name type uniqueReg attach).Heeds := by
  apply currentSub_heeds.bind
  intro s
  split
  · exact modifySub_heeds _
  · exact complain_heeds _

theorem declareLocals_heeds (type : ValueType) (names : List (String × Bool)) :
    (declareLocals type names).Heeds := by
  induction names with
  | nil => exact .pure _
  | cons entry names ih => exact (declareSymbol_heeds _ _ _ _).bind fun _ => ih

theorem bindLexical_heeds (name : String) (t : Target) : (bindLexical name t).Heeds :=
  currentSub_heeds.bind fun _ => modifySub_heeds _

theorem setLabel_heeds (name : String) : (setLabel name).Heeds := by
  apply currentSub_heeds.bind
  intro s
  split
  · exact complain_heeds _
  · exact .modify (fun _ => ⟨rfl, rfl, rfl⟩) fun _ _ => rfl

/-! Operands -/

theorem undeclared_heeds (name : String) (type : ValueType) (p : Problem) :
    (undeclared name type p).Heeds :=
  (complain_heeds p).bind fun _ => .pure _

theorem symbolTarget_heeds (name : String) : (symbolTarget name).Heeds := by
  refine .get (fun b => ?_) fun _ _ => rfl
  split
  · exact .pure _
  · exact undeclared_heeds _ _ _

theorem identifierValue_heeds (name : String) : (identifierValue name).Heeds := by
  refine .get (fun b => ?_) fun _ _ => rfl
  split
  · exact .pure _
  · exact (symbolTarget_heeds name).map _

theorem pmcTarget_heeds (object : PmcObject) (missing mismatch : String → Problem) :
    (pmcTarget object missing mismatch).Heeds := by
  unfold pmcTarget
  split
  · exact .pure _
  · refine .get (fun b => ?_) fun _ _ => rfl
    split
    · exact undeclared_heeds _ _ _
    · split
      · exact .pure _
      · exact (complain_heeds _).bind fun _ => .pure _

theorem indexedTarget_heeds (object : PmcObject) (key : Key) :
    (indexedTarget object key).Heeds :=
  (pmcTarget_heeds _ _ _).map _

theorem pmcObject_heeds (object : PmcObject) : (pmcObject object).Heeds := by
  unfold pmcObject
  split
  · exact .pure _
  · refine .get (fun b => ?_) fun _ _ => rfl
    split
    · exact .pure _
    · exact undeclared_heeds _ _ _

theorem methodTarget_heeds (name : String) : (methodTarget name).Heeds := by
  refine .get (fun b => ?_) fun _ _ => rfl
  split
  · exact (undeclared_heeds _ _ _).map _
  · split
    · exact .pure _
    · exact (complain_heeds _).bind fun _ => .pure _

theorem declareLexical_heeds (name : String) (object : PmcObject) :
    (declareLexical name object).Heeds :=
  (pmcTarget_heeds _ _ _).bind fun _ => bindLexical_heeds _ _

/-! Statements -/

/-- The instruction is taken away before it is emitted. -/
theorem run_finishInstruction {b : Builder} {i : Instruction}
    (h : b.pendingInstruction = some i) :
    finishInstruction.run b = (if b.opcodes.contains i.opcode then emitReduced i else do
        complain (.unknownInstruction i.opcode)
        emit (.instruction i)).run { b with pendingInstruction := none } := by
  unfold finishInstruction
  rw [run_bind]
  simp only [run_get, h]
  rfl

theorem run_finishInstruction_none {b : Builder} (h : b.pendingInstruction = none) :
    finishInstruction.run b = (.ok (), b) := by
  unfold finishInstruction
  rw [run_bind]
  simp only [run_get, h]
  rfl

theorem finishInstruction_heeds : finishInstruction.Heeds := by
  intro b n hb
  cases hi : b.pendingInstruction with
  | none =>
    have hi' : (b.withLimit n).pendingInstruction = none := hi
    rw [run_finishInstruction_none hi, run_finishInstruction_none hi']
    exact .same ⟨rfl, rfl, rfl⟩
  | some i =>
    have hi' : (b.withLimit n).pendingInstruction = some i := hi
    have hheeds : (if b.opcodes.contains i.opcode then emitReduced i else do
        complain (.unknownInstruction i.opcode)
        emit (.instruction i)).Heeds := by
      split
      · exact emitReduced_heeds i
      · exact (complain_heeds _).bind fun _ => emit_heeds _
    rw [run_finishInstruction hi, run_finishInstruction hi']
    exact hheeds.ends n ⟨rfl, rfl, rfl⟩ hb

theorem pushOperands_withLimit (operands : List Expression) (b : Builder) (n : Nat) :
    operands.foldl Builder.pushOperand (b.withLimit n) =
      (operands.foldl Builder.pushOperand b).withLimit n := by
  induction operands generalizing b with
  | nil => rfl
  | cons e operands ih => exact ih (b.pushOperand e)

theorem machineInstruction_heeds (opcode : String) (operands : List Expression) :
    (machineInstruction opcode operands).Heeds := by
  have hsame (b : Builder) :
      b.SameProblems (operands.foldl Builder.pushOperand (b.beginInstruction opcode)) :=
    .trans (c := b.beginInstruction opcode) ⟨rfl, rfl, rfl⟩ (pushOperands_same operands _)
  have hpush : (modify fun b => operands.foldl Builder.pushOperand (b.beginInstruction opcode) :
      Build PUnit).Heeds :=
    .modify hsame fun b => pushOperands_withLimit operands (b.beginInstruction opcode)
  exact hpush.bind fun _ => finishInstruction_heeds

theorem keyedStore_heeds (object : PmcObject) (key : Key) (value : Expression) :
    (keyedStore object key value).Heeds :=
  (indexedTarget_heeds _ _).bind fun _ => emitOp_heeds _ _

theorem assignInt_heeds (t : Target) (value : Int64) : (assignInt t value).Heeds := by
  unfold assignInt
  split <;> exact emitOp_heeds _ _

theorem assignNum_heeds (t : Target) (value : Float) : (assignNum t value).Heeds := by
  unfold assignNum
  split <;> exact emitOp_heeds _ _

theorem assignExpression_heeds (t : Target) (value : Expression) :
    (assignExpression t value).Heeds := by
  unfold assignExpression
  split
  · exact assignInt_heeds _ _
  · exact assignNum_heeds _ _
  · exact emitOp_heeds _ _

theorem assignBinary_heeds (t : Target) (left : Expression) (op : BinaryOp)
    (right : Expression) : (assignBinary t left op right).Heeds := by
  unfold assignBinary
  split
  · split
    · exact emitOp_heeds _ _
    · exact complain_heeds _
  · exact emitReduced_heeds _

theorem assignOp_heeds (t : Target) (name : String) (operands : List Expression) :
    (assignOp t name operands).Heeds := by
  refine .get (fun b => ?_) fun _ _ => rfl
  split
  · split
    · exact emitOp_heeds _ _
    · split
      · exact emitOp_heeds _ _
      · split
        · exact emitOp_heeds _ _
        · exact complain_heeds _
  · split
    · exact emitReduced_heeds _
    · exact complain_heeds _

theorem assignKeyed_heeds (t : Target) (name : String) (key : Key) :
    (assignKeyed t name key).Heeds := by
  refine .get (fun b => ?_) fun _ _ => rfl
  split
  · exact emitOp_heeds _ _
  · exact (indexedTarget_heeds _ _).bind fun _ => emitOp_heeds _ _

/-! Conditions -/

theorem conditionalTarget_heeds (p : Polarity) (nullCheck : Bool) (t : Target)
    (label : String) : (conditionalTarget p nullCheck t label).Heeds :=
  (emit_heeds _).map _

theorem conditionalKnown_heeds (p : Polarity) (value : Bool) (label : String) :
    (conditionalKnown p value label).Heeds :=
  (emit_heeds _).map _

theorem conditionalConstant_heeds (p : Polarity) (c : Constant) (label : String) :
    (conditionalConstant p c label).Heeds := by
  unfold conditionalConstant
  split
  · exact conditionalKnown_heeds _ _ _
  · exact .throw _

theorem conditionalVariable_heeds (p : Polarity) (nullCheck : Bool) (name label : String) :
    (conditionalVariable p nullCheck name label).Heeds := by
  refine .get (fun b => ?_) fun _ _ => rfl
  split
  · split
    · exact conditionalTarget_heeds _ _ _ _
    · exact conditionalConstant_heeds _ _ _
  · exact (symbolTarget_heeds _).bind fun _ => conditionalTarget_heeds _ _ _ _

theorem conditionalRelation_heeds (p : Polarity) (left : Expression) (op : RelOp)
    (right : Expression) (label : String) :
    (conditionalRelation p left op right label).Heeds := by
  unfold conditionalRelation
  split
  · split
    · exact conditionalKnown_heeds _ _ _
    · exact (complain_heeds _).bind fun _ => (emit_heeds _).map _
  · exact (emit_heeds _).map _

/-! Call blocks -/

theorem changeCall_heeds (f : PendingCall → PendingCall) : (changeCall f).Heeds := by
  have hcall : currentCall.Heeds := by
    refine .get (fun b => ?_) fun _ _ => rfl
    split
    · exact .pure _
    · exact .throw _
  exact hcall.bind fun _ => .modify (fun _ => ⟨rfl, rfl, rfl⟩) fun _ _ => rfl

theorem run_endCall_none {b : Builder} (h : b.pendingCall = none) :
    endCall.run b = (complain .blockWithoutBegin).run b := by
  unfold endCall
  rw [run_bind]
  simp only [run_get, h]

theorem endCall_heeds : endCall.Heeds := by
  intro b n hb
  cases hc : b.pendingCall with
  | none =>
    have hc' : (b.withLimit n).pendingCall = none := hc
    rw [run_endCall_none hc, run_endCall_none hc']
    exact complain_heeds _ b n hb
  | some call =>
    have hc' : (b.withLimit n).pendingCall = some call := hc
    have hheeds : (if call.hasTarget then emit (.invocation call.invocation)
        else complain .blockWithoutTarget).Heeds := by
      split
      · exact emit_heeds _
      · exact complain_heeds _
    rw [run_endCall hc, run_endCall hc']
    exact hheeds.ends n ⟨rfl, rfl, rfl⟩ hb

end Build

/-! Commands -/

namespace Reply

open Build

theorem ofUnit_heeds {x : Build Unit} (h : x.Heeds) : (ofUnit x).Heeds := h.map fun _ => done

theorem ofChange_heeds {g : Builder → Builder} (hg : ∀ b : Builder, b.SameProblems (g b))
    (hn : ∀ b n, g (b.withLimit n) = (g b).withLimit n) : (ofChange g).Heeds :=
  ofUnit_heeds (.modify hg hn)

end Reply

namespace Builder

theorem closeSub_withLimit (b : Builder) (n : Nat) :
    (b.withLimit n).closeSub = (b.closeSub.1, b.closeSub.2.withLimit n) := by
  have hcurrent : (b.withLimit n).current = b.current := rfl
  unfold closeSub
  rw [hcurrent]
  split <;> rfl

end Builder

open Reply Build in
/-- Every command is refused in a build that was given up as soon as it reports or emits. -/
theorem Command.run_heeds (command : Command) : command.run.Heeds := by
  cases command with
  | report kind message => exact ofUnit_heeds (report_heeds _ _)
  | malformed message => exact ofUnit_heeds (report_heeds _ _)
  | declareConstant name value => exact ofUnit_heeds (declareConstant_heeds _ _)
  | declareGlobalConstant name value => exact ofUnit_heeds (declareGlobalConstant_heeds _ _)
  | openSub name =>
    intro b n _
    show Build.Ends b n (.ok (subId (some (b.openSub name).1)), (b.openSub name).2)
      (.ok (subId (some ((b.withLimit n).openSub name).1)), ((b.withLimit n).openSub name).2)
    unfold Builder.openSub
    rw [Builder.closeSub_withLimit]
    exact .same ⟨b.closeSub_same.options, b.closeSub_same.diagnostics, b.closeSub_same.aborted⟩
  | closeSub =>
    intro b n _
    show Build.Ends b n (.ok (subId b.closeSub.1), b.closeSub.2)
      (.ok (subId (b.withLimit n).closeSub.1), (b.withLimit n).closeSub.2)
    rw [Builder.closeSub_withLimit]
    exact .same b.closeSub_same
  | addParameter => exact ofUnit_heeds (declareSymbol_heeds _ _ _ _)
  | setLabel name => exact ofUnit_heeds (setLabel_heeds _)
  | registerTarget type number => exact .pure _
  | symbolTarget name => exact (symbolTarget_heeds _).map _
  | identifierValue name => exact (identifierValue_heeds _).map _
  | identifierOperand name => exact .get (fun _ => .pure _) fun _ _ => rfl
  | indexedTarget object key => exact (indexedTarget_heeds _ _).map _
  | pmcObject object => exact (pmcObject_heeds _).map _
  | invocantTarget object => exact (pmcTarget_heeds _ _ _).map _
  | methodTarget name => exact (methodTarget_heeds _).map _
  | finishInstruction => exact ofUnit_heeds finishInstruction_heeds
  | machineInstruction opcode operands => exact ofUnit_heeds (machineInstruction_heeds _ _)
  | keyedStore object key value => exact ofUnit_heeds (keyedStore_heeds _ _ _)
  | nullTarget t => exact ofUnit_heeds (emitOp_heeds _ _)
  | getResults targets => exact ofUnit_heeds (emitOp_heeds _ _)
  | gotoLabel label => exact ofUnit_heeds (emitOp_heeds _ _)
  | assignInt t value => exact ofUnit_heeds (assignInt_heeds _ _)
  | assignNum t value => exact ofUnit_heeds (assignNum_heeds _ _)
  | assignString t value => exact ofUnit_heeds (emitOp_heeds _ _)
  | assignExpression t value => exact ofUnit_heeds (assignExpression_heeds _ _)
  | assignBinary t left op right => exact ofUnit_heeds (assignBinary_heeds _ _ _ _)
  | assignUnary t op value => exact ofUnit_heeds (emitOp_heeds _ _)
  | assignOp t name operands => exact ofUnit_heeds (assignOp_heeds _ _ _)
  | assignKeyed t name key => exact ofUnit_heeds (assignKeyed_heeds _ _ _)
  | augmentedAssign t op value => exact ofUnit_heeds (emitReduced_heeds _)
  | conditionalVariable p nullCheck name label =>
    exact (conditionalVariable_heeds _ _ _ _).map _
  | conditionalTarget p nullCheck t label => exact (conditionalTarget_heeds _ _ _ _).map _
  | conditionalConstant p c label => exact (conditionalConstant_heeds _ _ _).map _
  | conditionalRelation p left op right label =>
    exact (conditionalRelation_heeds _ _ _ _ _).map _
  | declareLocals type names => exact ofUnit_heeds (declareLocals_heeds _ _)
  | declareLexical name object => exact ofUnit_heeds (declareLexical_heeds _ _)
  | shortInvocation i results => exact ofUnit_heeds (emit_heeds _)
  | tailcall i => exact ofUnit_heeds (emit_heeds _)
  | returnArguments arguments => exact ofUnit_heeds (emit_heeds _)
  | yieldArguments arguments => exact ofUnit_heeds (emit_heeds _)
  | setArgument a => exact ofUnit_heeds (changeCall_heeds _)
  | callTarget callee retcont => exact ofUnit_heeds (changeCall_heeds _)
  | nciCallTarget callee => exact ofUnit_heeds (changeCall_heeds _)
  | setInvocant invocant => exact ofUnit_heeds (changeCall_heeds _)
  | methodCallTarget method => exact ofUnit_heeds (changeCall_heeds _)
  | getResult t => exact ofUnit_heeds (changeCall_heeds _)
  | endCall => exact ofUnit_heeds endCall_heeds
  | isOpcode name => exact .get (fun _ => .pure _) fun _ _ => rfl
  -- All others change a part of the builder that has nothing to do with problems.
  | loadLibrary | setHll | setHllMap | setNamespace | setSubFlags | setSubOuter | setSubVtable
  | setSubLexid | setSubInstanceof | beginStatement | setLine | endStatement | recoverStatement
  | beginInstruction | pushOperand | beginCall | beginReturn =>
    exact ofChange_heeds (fun _ => ⟨rfl, rfl, rfl⟩) fun _ _ => rfl

end PirFrontend
