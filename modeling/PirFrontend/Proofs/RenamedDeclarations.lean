import PirFrontend.Build.Frame
import PirFrontend.Build.Invoking
import PirFrontend.Proofs.RenamedBuilds

/-!
Declaring, calling and framing under other names. The first builder declares a name, the second one
its other name; whatever stands in a heading stays, but for the name that is hidden there.
-/
namespace PirFrontend

open HasClean

namespace Respelling

variable {ρ : Respelling}

/-! Calls -/

theorem shortInvocation (i : Invocation) (results : List Target) :
    ρ.Builds (Build.shortInvocation i results) (Build.shortInvocation (i.rename ρ.name)
      (results.map (Target.rename ρ.name))) id :=
  emit (.invocation { i with results })

theorem tailcall (i : Invocation) :
    ρ.Builds (Build.tailcall i) (Build.tailcall (i.rename ρ.name)) id :=
  emit (.invocation { i with kind := _ })

theorem returnArguments (as : List Argument) :
    ρ.Builds (Build.returnArguments as)
      (Build.returnArguments (as.map (Argument.rename ρ.name))) id :=
  emit (.invocation { Invocation.empty .returnValues with arguments := as })

theorem yieldArguments (as : List Argument) :
    ρ.Builds (Build.yieldArguments as) (Build.yieldArguments (as.map (Argument.rename ρ.name)))
      id :=
  emit (.invocation { Invocation.empty .yieldValues with arguments := as })

theorem changeCall {f g : PendingCall → PendingCall}
    (hlabel : ∀ p, (f p).invocation.label = p.invocation.label)
    (h : ∀ p, g (p.rename ρ.name) = (f p).rename ρ.name) :
    ρ.Builds (Build.changeCall f) (Build.changeCall g) id := by
  refine of_adds (fun b => (Build.changeCall_moves b.collects_any hlabel).adds)
    fun {b c b' a} hbc hrun _ => ?_
  cases hp : b.pendingCall with
  | none =>
    unfold Build.changeCall at hrun
    rw [run_bind_error (Build.run_currentCall_none hp)] at hrun
    cases hrun
  | some p =>
    have hq : c.pendingCall = some (p.rename ρ.name) := by rw [hbc.pendingCall, hp, Option.map_some]
    rw [Build.run_changeCall hp] at hrun
    cases hrun
    refine ⟨(), _, Build.run_changeCall hq g, rfl, ?_⟩
    exact { hbc with pendingCall := congrArg some (h p) }

theorem setArgument (a : Argument) :
    ρ.Builds (Build.setArgument a) (Build.setArgument (a.rename ρ.name)) id :=
  changeCall (fun _ => rfl) fun p => by simp [PendingCall.rename, Invocation.rename]

theorem callTarget (callee : Target) (retcont : Option Target) :
    ρ.Builds (Build.callTarget callee retcont)
      (Build.callTarget (callee.rename ρ.name) (retcont.map (Target.rename ρ.name))) id :=
  changeCall (fun _ => rfl) fun p => by simp [PendingCall.rename, Invocation.rename]

theorem nciCallTarget (callee : Target) :
    ρ.Builds (Build.nciCallTarget callee) (Build.nciCallTarget (callee.rename ρ.name)) id :=
  changeCall (fun _ => rfl) fun p => by simp [PendingCall.rename, Invocation.rename]

theorem setInvocant (invocant : Target) :
    ρ.Builds (Build.setInvocant invocant) (Build.setInvocant (invocant.rename ρ.name)) id :=
  changeCall (fun _ => rfl) fun p => by simp [PendingCall.rename, Invocation.rename]

theorem methodCallTarget (method : Expression) :
    ρ.Builds (Build.methodCallTarget method) (Build.methodCallTarget (method.rename ρ.name)) id :=
  changeCall (fun _ => rfl) fun p => by simp [PendingCall.rename, Invocation.rename]

theorem getResult (t : Target) :
    ρ.Builds (Build.getResult t) (Build.getResult (t.rename ρ.name)) id :=
  changeCall (fun _ => rfl) fun p => by simp [PendingCall.rename, Invocation.rename]

theorem endCall : ρ.Builds Build.endCall Build.endCall id := by
  refine of_adds (fun b => Build.endCall_adds b.collects_any)
    fun {b c b' a} h hrun hclean => ?_
  have hpending := h.pendingCall
  cases hp : b.pendingCall with
  | none =>
    have hcomplain : (Build.complain .blockWithoutBegin).run b = (.ok a, b') := by
      unfold Build.endCall at hrun
      rw [run_bind, run_get] at hrun
      simpa only [hp] using hrun
    exact absurd hclean (not_clean_of_report hcomplain)
  | some p =>
    rw [hp, Option.map_some] at hpending
    rw [Build.run_endCall hp] at hrun
    rw [Build.run_endCall hpending]
    have hdropped : ρ.Builders { b with pendingCall := none } { c with pendingCall := none } :=
      { h with pendingCall := rfl }
    have hend : ρ.Builds
        (if p.hasTarget then Build.emit (.invocation p.invocation)
          else Build.complain .blockWithoutTarget)
        (if (p.rename ρ.name).hasTarget then Build.emit (.invocation (p.rename ρ.name).invocation)
          else Build.complain .blockWithoutTarget) id :=
      .ite (fun _ => emit (.invocation p.invocation)) fun _ => complain _
    exact hend.carry hdropped hrun hclean

/-! Declarations -/

/-- The open subroutines are changed alike. -/
theorem Builders.modifySub {b c : Builder} {f g : Subroutine → Subroutine} (h : ρ.Builders b c)
    (hfg : ∀ s u, ρ.Subs s u → ρ.Subs (f s) (g u)) :
    ρ.Builders (b.modifySub f) (c.modifySub g) := by
  refine { h with current := ?_ }
  show Option.Rel ρ.Subs (b.current.map f) (c.current.map g)
  cases hs : b.current with
  | none =>
    rw [h.current_none hs]
    exact .none
  | some s =>
    obtain ⟨u, hu, hsub⟩ := h.current_some hs
    rw [hu]
    exact .some (hfg s u hsub)

/-- What is done next depends on the open subroutine; there is one, or else the action fails. -/
theorem currentSub_bind {α : Type} {f g : Subroutine → Build α} {R : α → α → Prop}
    (hx : ∀ b, (Build.currentSub >>= f).Adds (fun _ => True) b)
    (h : ∀ {b c s u b' a}, ρ.Builders b c → ρ.Subs s u → (f s).run b = (.ok a, b') → Clean b' →
      ∃ a' c', (g u).run c = (.ok a', c') ∧ R a a' ∧ ρ.Builders b' c') :
    Carries ρ.Builders (Build.currentSub >>= f) (Build.currentSub >>= g) R
      fun _ => ρ.Builders := by
  refine of_adds hx fun hbc hrun hclean => ?_
  obtain ⟨s, b₁, hcurrent, hrest⟩ := exists_of_run_bind hrun
  obtain ⟨hs, rfl⟩ := Build.run_currentSub_ok hcurrent
  obtain ⟨u, hu, hsub⟩ := hbc.current_some hs
  rw [run_bind_ok (Build.run_currentSub hu)]
  exact h hbc hsub hrest hclean

theorem Subs.constant {s u : Subroutine} (h : ρ.Subs s u) (name : String) (value : ConstantValue) :
    ρ.Subs { s with constants := s.constants.insert name (.named name value) }
      { u with constants := u.constants.insert (ρ.name name) (.named (ρ.name name) value) } where
  __ := h
  constants := by rw [Table.insert_rename ρ.injective, h.constants, Constant.rename_named]

theorem declareConstant (name : String) (value : ConstantValue) :
    ρ.Builds (Build.declareConstant name value) (Build.declareConstant (ρ.name name) value) id := by
  refine of_adds (fun b => (Build.declareConstant_moves name value).adds)
    fun {b c b' a} h hrun hclean => ?_
  cases hs : b.current with
  | some s =>
    obtain ⟨u, hu, hsub⟩ := h.current_some hs
    rw [Build.run_declareConstant_sub hs] at hrun
    rw [Build.run_declareConstant_sub hu, hsub.constants, Table.contains_rename ρ.injective]
    split at hrun
    next => exact absurd hclean (not_clean_of_report hrun)
    next hnew =>
      cases hrun
      rw [if_neg hnew]
      exact ⟨(), _, rfl, rfl, h.modifySub fun s u hsub => hsub.constant name value⟩
  | none =>
    rw [Build.run_declareConstant_file hs] at hrun
    rw [Build.run_declareConstant_file (h.current_none hs), h.unit.constants,
      Table.contains_rename ρ.injective]
    split at hrun
    next => exact absurd hclean (not_clean_of_report hrun)
    next hnew =>
      cases hrun
      rw [if_neg hnew]
      refine ⟨(), _, rfl, rfl, { h with unit := { h.unit with constants := ?_ } }⟩
      rw [Table.insert_rename ρ.injective, Constant.rename_named]

theorem declareGlobalConstant (name : String) (value : ConstantValue) :
    ρ.Builds (Build.declareGlobalConstant name value)
      (Build.declareGlobalConstant (ρ.name name) value) id := by
  refine of_adds (fun b => (Build.declareGlobalConstant_moves name value).adds)
    fun {b c b' a} h hrun hclean => ?_
  rw [Build.run_declareGlobalConstant] at hrun
  rw [Build.run_declareGlobalConstant, h.unit.globalConstants, Table.contains_rename ρ.injective]
  split at hrun
  next => exact absurd hclean (not_clean_of_report hrun)
  next hnew =>
    cases hrun
    rw [if_neg hnew]
    refine ⟨(), _, rfl, rfl, { h with unit := { h.unit with globalConstants := ?_ } }⟩
    rw [Table.insert_rename ρ.injective, Constant.rename_named]

theorem declareSymbol {attach attach' : Symbol → Subroutine → Subroutine} (name : String)
    (type : ValueType) (uniqueReg : Bool)
    (hgains : ∀ symbol (s : Subroutine), s.Gains (attach symbol s))
    (hattach : ∀ symbol s u, ρ.Subs s u →
      ρ.Subs (attach symbol s) (attach' (symbol.rename ρ.name) u)) :
    ρ.Builds (Build.declareSymbol name type uniqueReg attach)
      (Build.declareSymbol (ρ.name name) type uniqueReg attach') id := by
  refine currentSub_bind (fun _ => (Build.declareSymbol_moves name type uniqueReg hgains).adds)
    fun h hsub hrun hclean => ?_
  rw [hsub.symbols]
  split at hrun
  next symbol table hdeclare =>
    cases hrun
    rw [SymbolTable.declare_rename ρ.injective hdeclare]
    refine ⟨(), _, rfl, rfl, h.modifySub fun s u hsub => ?_⟩
    exact hattach symbol _ _ { hsub with symbols := rfl }
  next => exact absurd hclean (not_clean_of_report hrun)

theorem addParameter (type : ValueType) (name : String) (flags : FlagSet TargetFlag)
    (namedAs : Option String) {invocant invocant' : Option String}
    (hinvocant : Spared (some ρ.hidden) invocant invocant') :
    ρ.Builds (Build.addParameter type name flags namedAs invocant)
      (Build.addParameter type (ρ.name name) flags namedAs invocant') id := by
  refine declareSymbol name type _ (fun _ s => s.gains_parameter _) fun symbol s u h => ?_
  refine { h with parameters := List.rel_append h.parameters (.cons ⟨?_, hinvocant⟩ .nil) }
  simp [Target.rename_eq, Target.addFlags, Target.ofSymbol, Target.ofStorage, Storage.rename,
    Symbol.rename]

theorem declareLocals (type : ValueType) (names : List (String × Bool)) :
    ρ.Builds (Build.declareLocals type names)
      (Build.declareLocals type (names.map (Prod.map ρ.name id))) id := by
  induction names with
  | nil => exact done rfl
  | cons entry names ih =>
    exact (declareSymbol entry.1 type entry.2 (fun _ s => .refl s) fun _ _ _ => id).bind fun _ => ih

theorem bindLexical (name : String) (t : Target) :
    ρ.Builds (Build.bindLexical name t) (Build.bindLexical name (t.rename ρ.name)) id := by
  refine currentSub_bind (fun _ => (Build.bindLexical_moves name t).adds) fun h _ hrun _ => ?_
  cases hrun
  refine ⟨(), _, rfl, rfl, h.modifySub fun s u hsub => { hsub with lexicals := ?_ }⟩
  simp [hsub.lexicals, Lexical.rename, Target.rename_eq]

theorem declareLexical (name : String) (object : PmcObject) :
    ρ.Builds (Build.declareLexical name object)
      (Build.declareLexical name (object.rename ρ.name)) id :=
  (pmcTarget object _ _).bind fun t => bindLexical name t

theorem setLabel (name : String) :
    ρ.Builds (Build.setLabel name) (Build.setLabel (ρ.name name)) id := by
  refine currentSub_bind (fun _ => (Build.setLabel_moves name).adds)
    fun h hsub hrun hclean => ?_
  rw [hsub.labels, Table.contains_rename ρ.injective]
  split at hrun
  next => exact absurd hclean (not_clean_of_report hrun)
  next hnew =>
    cases hrun
    rw [if_neg hnew]
    have hentered := h.modifySub
      (f := fun s => { s with labels := s.labels.insert name s.statements.length })
      (g := fun u => { u with labels := u.labels.insert (ρ.name name) u.statements.length })
      fun s u hsub => { hsub with
        labels := by
          rw [Table.insert_rename ρ.injective, hsub.labels, hsub.statements, List.length_map]
          rfl }
    exact ⟨(), _, rfl, rfl, { hentered with pendingLabel := rfl }⟩

/-! The frame of the unit -/

namespace Builders

variable {b c : Builder}

theorem closeSub (h : ρ.Builders b c) : ρ.Builders b.closeSub.2 c.closeSub.2 := by
  unfold Builder.closeSub
  cases hs : b.current with
  | none => rwa [h.current_none hs]
  | some s =>
    obtain ⟨u, hu, hsub⟩ := h.current_some hs
    rw [hu]
    exact { h with
      unit := { h.unit with
        subroutines := List.rel_append h.unit.subroutines (.cons hsub .nil) }
      current := .none
      pendingLabel := rfl
      pendingInstruction := .none
      pendingCall := rfl }

theorem openSub (h : ρ.Builders b c) {name name' : String} (hname : Spared ρ.hidden name name') :
    ρ.Builders (b.openSub name).2 (c.openSub name').2 := by
  have hclosed := h.closeSub
  refine { hclosed with current := .some ?_ }
  exact {
    name := hname
    vtable := fun _ => rfl
    outer := .refl _ _
    flags := rfl
    lexid := rfl
    instanceof := rfl
    namespaceKey := hclosed.unit.namespaceKey
    parameters := .nil
    lexicals := rfl
    constants := rfl
    statements := rfl
    labels := rfl
    symbols := rfl }

theorem beginStatement (h : ρ.Builders b c) (line line' : Nat) :
    ρ.Builders (b.beginStatement line) (c.beginStatement line') :=
  { h with pendingInstruction := .none }

theorem dropInstruction (h : ρ.Builders b c) : ρ.Builders b.dropInstruction c.dropInstruction :=
  { h with pendingInstruction := .none }

theorem beginInstruction (h : ρ.Builders b c) {opcode opcode' : String}
    (hopcode : Spared ρ.hidden opcode opcode') :
    ρ.Builders (b.beginInstruction opcode) (c.beginInstruction opcode') :=
  { h with pendingInstruction := .some ⟨rfl, hopcode, rfl⟩ }

theorem pushOperand (h : ρ.Builders b c) (e : Expression) :
    ρ.Builders (b.pushOperand e) (c.pushOperand (e.rename ρ.name)) := by
  refine { h with pendingInstruction := ?_ }
  show Option.Rel ρ.Instructions (b.pendingInstruction.map _) (c.pendingInstruction.map _)
  have hpending := h.pendingInstruction
  generalize b.pendingInstruction = i at hpending
  generalize c.pendingInstruction = j at hpending
  cases hpending with
  | none => exact .none
  | some hij => exact .some ⟨hij.label, hij.opcode, by simp [Instruction.push, hij.operands]⟩

theorem pushOperands (h : ρ.Builders b c) (es : List Expression) :
    ρ.Builders (es.foldl Builder.pushOperand b)
      ((es.map (Expression.rename ρ.name)).foldl Builder.pushOperand c) := by
  induction es generalizing b c with
  | nil => exact h
  | cons e es ih => exact ih (h.pushOperand e)

end Builders

end Respelling
end PirFrontend
