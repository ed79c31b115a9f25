import Mathlib.Data.List.Forall2
import PirFrontend.Proofs.Carrying
import PirFrontend.Proofs.Mirrors
import PirFrontend.Proofs.Renaming

/-!
Building under other names. What a text declares may be declared under another name, if it is used
under that name. Then the builder that was told the other names finds and emits the same under
them; only the opcodes stay, and one name is given up that was none.
-/
namespace PirFrontend

/-- Other names for what a text declares. A name that heads a subroutine, or stands for an opcode,
is not renamed, unless it is the one that is hidden. -/
structure Respelling where
  name : String → String
  injective : name.Injective
  name_null : name "null" = "null"
  hidden : String

/-- The second value is the first one, unless that is the exception. -/
def Spared {α : Type} (exception a b : α) : Prop := a ≠ exception → b = a

theorem Spared.refl {α : Type} (exception a : α) : Spared exception a a := fun _ => rfl

theorem Spared.some {α : Type} {exception a b : α} (h : Spared exception a b) :
    Spared (Option.some exception) (Option.some a) (Option.some b) := fun hne =>
  congrArg Option.some (h fun he => hne (congrArg Option.some he))

instance {α : Type} (exception : α) : Total (Spared exception) := ⟨fun a => ⟨a, .refl _ a⟩⟩

theorem exists_of_rel_some {α β : Type} {r : α → β → Prop} {o : Option α} {p : Option β} {a : α}
    (h : Option.Rel r o p) (ho : o = some a) : ∃ b, p = some b ∧ r a b := by
  subst ho
  cases h with
  | some hab => exact ⟨_, rfl, hab⟩

theorem eq_none_of_rel {α β : Type} {r : α → β → Prop} {o : Option α} {p : Option β}
    (h : Option.Rel r o p) (ho : o = none) : p = none := by
  subst ho
  cases h
  rfl

namespace Respelling

variable (ρ : Respelling)

structure Parameters (p q : Parameter) : Prop where
  target : q.target = p.target.rename ρ.name
  invocantType : Spared (some ρ.hidden) p.invocantType q.invocantType

/-- Subroutines with the same heading and other names in their bodies. -/
structure Subs (s u : Subroutine) : Prop where
  name : Spared ρ.hidden s.name u.name
  vtable : s.name ≠ ρ.hidden → u.vtable = s.vtable
  outer : Spared (some ρ.hidden) s.outer u.outer
  flags : u.flags = s.flags
  lexid : u.lexid = s.lexid
  instanceof : u.instanceof = s.instanceof
  namespaceKey : u.namespaceKey = s.namespaceKey
  parameters : List.Forall₂ ρ.Parameters s.parameters u.parameters
  lexicals : u.lexicals = s.lexicals.map (Lexical.rename ρ.name)
  constants : u.constants = s.constants.rename ρ.name (Constant.rename ρ.name)
  statements : u.statements = s.statements.map (Statement.rename ρ.name)
  labels : u.labels = s.labels.rename ρ.name id
  symbols : u.symbols = s.symbols.rename ρ.name

structure Units (u w : CompilationUnit) : Prop where
  subroutines : List.Forall₂ ρ.Subs u.subroutines w.subroutines
  globalConstants : w.globalConstants = u.globalConstants.rename ρ.name (Constant.rename ρ.name)
  constants : w.constants = u.constants.rename ρ.name (Constant.rename ρ.name)
  namespaceKey : w.namespaceKey = u.namespaceKey
  hll : w.hll = u.hll
  hllMap : w.hllMap = u.hllMap
  libraries : w.libraries = u.libraries

structure Instructions (i j : Instruction) : Prop where
  label : j.label = i.label.map ρ.name
  opcode : Spared ρ.hidden i.opcode j.opcode
  operands : j.operands = i.operands.map (Expression.rename ρ.name)

/-- Builders that were told the same under other names, the second one without a problem. -/
structure Builders (b c : Builder) : Prop where
  options : c.options = b.options
  opcodes : c.opcodes = b.opcodes
  hidden : b.opcodes.contains ρ.hidden = false
  unit : ρ.Units b.unit c.unit
  current : Option.Rel ρ.Subs b.current c.current
  pendingLabel : c.pendingLabel = b.pendingLabel.map ρ.name
  pendingInstruction : Option.Rel ρ.Instructions b.pendingInstruction c.pendingInstruction
  pendingCall : c.pendingCall = b.pendingCall.map (PendingCall.rename ρ.name)
  diagnostics : c.diagnostics = []
  aborted : c.aborted = false

end Respelling

/-! What names stand for -/

section

variable {ρ : Respelling} {b c : Builder}

namespace Respelling.Builders

theorem lookup (h : ρ.Builders b c) (name : String) :
    c.lookup (ρ.name name) = (b.lookup name).map (Symbol.rename ρ.name) := by
  unfold Builder.lookup
  obtain hcurrent := h.current
  generalize b.current = s at hcurrent
  generalize c.current = u at hcurrent
  cases hcurrent with
  | none => rfl
  | some hsub =>
    simp only [Option.bind_some, hsub.symbols]
    exact SymbolTable.lookup_rename ρ.injective _ name

theorem lookupConstant (h : ρ.Builders b c) (name : String) :
    c.lookupConstant (ρ.name name) = (b.lookupConstant name).map (Constant.rename ρ.name) := by
  unfold Builder.lookupConstant
  rw [h.unit.constants, h.unit.globalConstants, Table.get?_rename ρ.injective,
    Table.get?_rename ρ.injective]
  have hlocal : (c.current.bind (·.constants.get? (ρ.name name))) =
      (b.current.bind (·.constants.get? name)).map (Constant.rename ρ.name) := by
    obtain hcurrent := h.current
    generalize b.current = s at hcurrent
    generalize c.current = u at hcurrent
    cases hcurrent with
    | none => rfl
    | some hsub =>
      simp only [Option.bind_some, hsub.constants]
      exact Table.get?_rename ρ.injective _ name
  rw [hlocal]
  cases b.current.bind (·.constants.get? name) <;> cases b.unit.constants.get? name <;> rfl

theorem identifierOperand (h : ρ.Builders b c) (name : String) :
    c.identifierOperand (ρ.name name) = (b.identifierOperand name).rename ρ.name := by
  unfold Builder.identifierOperand
  rw [h.lookup, h.lookupConstant]
  cases b.lookup name with
  | some s => simp [Expression.rename]
  | none => cases b.lookupConstant name <;> simp [Expression.rename]

end Respelling.Builders

end

/-! Actions under other names -/

open HasClean

namespace Respelling

variable {ρ : Respelling} {α β : Type}

/-- The second action builds under other names what the first one builds. -/
abbrev Builds (ρ : Respelling) (x y : Build α) (r : α → α) : Prop :=
  Carries ρ.Builders x y (Maps r) fun _ => ρ.Builders

theorem clean_of_charges {b c : Builder} (h : b.Charges c) (hclean : Clean c) : Clean b := by
  obtain ⟨ds, hds, -⟩ := h.diagnostics
  have hnil : c.diagnostics = [] := hclean
  rw [hds] at hnil
  exact (List.append_eq_nil_iff.1 hnil).1

theorem clean_of_adds {x : Build α} {b b' : Builder} {a : α} (hx : x.Adds (fun _ => True) b)
    (hrun : x.run b = (.ok a, b')) (hclean : Clean b') : Clean b := by
  have hcharges := hx.charges
  rw [hrun] at hcharges
  exact clean_of_charges hcharges hclean

theorem of_adds {x y : Build α} {R : α → α → Prop} (hx : ∀ b, x.Adds (fun _ => True) b)
    (h : ∀ {b c b' a}, ρ.Builders b c → x.run b = (.ok a, b') → Clean b' →
      ∃ a' c', y.run c = (.ok a', c') ∧ R a a' ∧ ρ.Builders b' c') :
    Carries ρ.Builders x y R fun _ => ρ.Builders where
  clean := clean_of_adds (hx _)
  carry := h

theorem of_get {f g : Builder → Build α} {R : α → α → Prop}
    (hx : ∀ b, (do f (← get)).Adds (fun _ => True) b)
    (h : ∀ b c, ρ.Builders b c → Carries ρ.Builders (f b) (g c) R fun _ => ρ.Builders) :
    Carries ρ.Builders (do f (← get)) (do g (← get)) R fun _ => ρ.Builders :=
  .get (fun hrun => clean_of_adds (hx _) hrun) h

theorem not_clean_of_report {kind : DiagnosticKind} {message : String} {b b' : Builder} {a : Unit}
    (hrun : (Build.report kind message).run b = (.ok a, b')) : ¬Clean b' := by
  intro hclean
  have hnil : b'.diagnostics = [] := hclean
  obtain ⟨-, -, rfl⟩ := Build.run_report_ok hrun
  simp [Builder.record] at hnil

theorem report (kind : DiagnosticKind) (message : String) {y : Build Unit}
    {P : Builder → Builder → Prop} {R : Unit → Unit → Prop} {Q : Unit → Builder → Builder → Prop} :
    Carries P (Build.report kind message) y R Q :=
  .spoiled fun _ _ _ => not_clean_of_report

theorem complain (p : Problem) {y : Build Unit} {P : Builder → Builder → Prop}
    {R : Unit → Unit → Prop} {Q : Unit → Builder → Builder → Prop} :
    Carries P (Build.complain p) y R Q :=
  report _ _

theorem done {a b : α} {r : α → α} (h : b = r a) : ρ.Builds (Pure.pure a) (Pure.pure b) r :=
  .pure h fun _ _ => id

/-! Operands -/

theorem undeclared (name name' : String) (type : ValueType) (p q : Problem) {r : Target → Target} :
    ρ.Builds (Build.undeclared name type p) (Build.undeclared name' type q) r :=
  (complain p (R := Maps id) (Q := fun _ _ _ => False)).bind fun _ =>
    .vacuous (done rfl : ρ.Builds _ _ id)

theorem symbolTarget (name : String) :
    ρ.Builds (Build.symbolTarget name) (Build.symbolTarget (ρ.name name))
      (Target.rename ρ.name) := by
  refine of_get (fun _ => (Build.symbolTarget_moves name).adds) fun b c h => ?_
  rw [h.lookup]
  cases b.lookup name with
  | some s => exact done (Target.rename_ofSymbol s).symm
  | none => exact undeclared _ _ _ _ _

theorem identifierValue (name : String) :
    ρ.Builds (Build.identifierValue name) (Build.identifierValue (ρ.name name))
      (Expression.rename ρ.name) := by
  refine of_get (fun _ => (Build.identifierValue_moves name).adds) fun b c h => ?_
  rw [h.lookup, h.lookupConstant]
  have htarget : ρ.Builds (do return .target (← Build.symbolTarget name))
      (do return .target (← Build.symbolTarget (ρ.name name))) (Expression.rename ρ.name) :=
    (symbolTarget name).bind fun t => done (by rw [Expression.rename])
  cases b.lookup name with
  | some s => exact htarget
  | none =>
    cases b.lookupConstant name with
    | some constant => exact done (by rw [Expression.rename])
    | none => exact htarget

theorem pmcTarget (object : PmcObject) (missing mismatch : String → Problem) :
    ρ.Builds (Build.pmcTarget object missing mismatch)
      (Build.pmcTarget (object.rename ρ.name) missing mismatch) (Target.rename ρ.name) := by
  cases object with
  | register number => exact done (Target.rename_register _ _).symm
  | named name =>
    refine of_get (fun _ => (Build.pmcTarget_moves (.named name) missing mismatch).adds)
      fun b c h => ?_
    rw [h.lookup]
    cases b.lookup name with
    | none => exact undeclared _ _ _ _ _
    | some s =>
      refine .ite (fun _ => done (Target.rename_ofSymbol s).symm) fun _ => ?_
      exact (complain _ (R := Maps id)).bind fun _ => done (Target.rename_ofSymbol s).symm

theorem indexedTarget (object : PmcObject) (key : Key) :
    ρ.Builds (Build.indexedTarget object key)
      (Build.indexedTarget (object.rename ρ.name) (key.rename ρ.name)) (Target.rename ρ.name) :=
  (pmcTarget object _ _).bind fun t => done (by simp [Target.rename_eq])

theorem pmcObject (object : PmcObject) :
    ρ.Builds (Build.pmcObject object) (Build.pmcObject (object.rename ρ.name))
      (Target.rename ρ.name) := by
  cases object with
  | register number => exact done (Target.rename_register _ _).symm
  | named name =>
    refine of_get (fun _ => (Build.pmcObject_moves (.named name)).adds) fun b c h => ?_
    rw [h.lookup]
    cases b.lookup name with
    | none => exact undeclared _ _ _ _ _
    | some s => exact done (Target.rename_ofSymbol s).symm

theorem invocantTarget (object : PmcObject) :
    ρ.Builds (Build.invocantTarget object) (Build.invocantTarget (object.rename ρ.name))
      (Target.rename ρ.name) :=
  pmcTarget object _ _

theorem methodTarget (name : String) :
    ρ.Builds (Build.methodTarget name) (Build.methodTarget (ρ.name name))
      (Expression.rename ρ.name) := by
  refine of_get (fun _ => (Build.methodTarget_moves name).adds) fun b c h => ?_
  rw [h.lookup]
  cases b.lookup name with
  | none => exact (undeclared _ _ _ _ _).bind fun t => done (by rw [Expression.rename])
  | some s =>
    have hs : Expression.target (.ofSymbol (s.rename ρ.name)) =
        (Expression.target (.ofSymbol s)).rename ρ.name := by
      rw [Expression.rename, Target.rename_ofSymbol]
    refine .ite (fun _ => done hs) fun _ => ?_
    exact (complain _ (R := Maps id)).bind fun _ => done hs

/-! Statements -/

theorem Builders.current_some {b c : Builder} {s : Subroutine} (h : ρ.Builders b c)
    (hs : b.current = some s) : ∃ u, c.current = some u ∧ ρ.Subs s u :=
  exists_of_rel_some h.current hs

theorem Builders.current_none {b c : Builder} (h : ρ.Builders b c) (hs : b.current = none) :
    c.current = none :=
  eq_none_of_rel h.current hs

theorem emit (st : Statement) :
    ρ.Builds (Build.emit st) (Build.emit (st.rename ρ.name)) id := by
  refine of_adds (fun _ => Build.emit_adds fun _ _ => trivial) fun h hrun _ => ?_
  obtain ⟨ha, s, hs⟩ := Build.run_emit_ok hrun
  obtain ⟨u, hu, hsub⟩ := h.current_some hs
  rw [Build.run_emit ha hs] at hrun
  cases hrun
  refine ⟨(), _, Build.run_emit h.aborted hu _, rfl, ?_⟩
  refine { h with pendingLabel := rfl, current := .some { hsub with statements := ?_ } }
  rw [hsub.statements, h.pendingLabel, List.map_append, List.map_singleton,
    Statement.rename_labelled]

theorem emitInstruction (i : Instruction) :
    ρ.Builds (Build.emit (.instruction i)) (Build.emit (.instruction (i.rename ρ.name))) id :=
  emit (.instruction i)

theorem emitOp (opcode : String) (operands : List Expression) :
    ρ.Builds (Build.emitOp opcode operands)
      (Build.emitOp opcode (operands.map (Expression.rename ρ.name))) id :=
  emit (.instruction (.of opcode operands))

theorem emitReduced (i : Instruction) :
    ρ.Builds (Build.emitReduced i) (Build.emitReduced (i.rename ρ.name)) id := by
  unfold Build.emitReduced
  rw [Instruction.reduce_rename ρ.injective]
  obtain ⟨r, i'⟩ := i.reduce
  dsimp only
  split
  · exact (complain _ (R := Maps id)).bind fun _ => emit (.instruction i')
  · exact emit (.instruction i')

theorem keyedStore (object : PmcObject) (key : Key) (value : Expression) :
    ρ.Builds (Build.keyedStore object key value) (Build.keyedStore (object.rename ρ.name)
      (key.rename ρ.name) (value.rename ρ.name)) id :=
  (indexedTarget object key).bind fun t => by simpa using emitOp "set" [.target t, value]

theorem nullTarget (t : Target) :
    ρ.Builds (Build.nullTarget t) (Build.nullTarget (t.rename ρ.name)) id := by
  unfold Build.nullTarget
  simpa using emitOp (ρ := ρ) "null" [.target t]

theorem getResults (targets : List Target) :
    ρ.Builds (Build.getResults targets) (Build.getResults (targets.map (Target.rename ρ.name)))
      id := by
  unfold Build.getResults
  simpa [Function.comp_def] using emitOp (ρ := ρ) "get_results" (targets.map .target)

theorem gotoLabel (label : String) :
    ρ.Builds (Build.gotoLabel label) (Build.gotoLabel (ρ.name label)) id := by
  unfold Build.gotoLabel
  simpa using emitOp (ρ := ρ) "branch" [.label label]

theorem assignInt (t : Target) (v : Int64) :
    ρ.Builds (Build.assignInt t v) (Build.assignInt (t.rename ρ.name) v) id :=
  .ite (fun _ => nullTarget t) fun _ => by simpa using emitOp (ρ := ρ) "set" [.target t, .int v]

theorem assignNum (t : Target) (v : Float) :
    ρ.Builds (Build.assignNum t v) (Build.assignNum (t.rename ρ.name) v) id :=
  .ite (fun _ => nullTarget t) fun _ => by simpa using emitOp (ρ := ρ) "set" [.target t, .num v]

theorem assignString (t : Target) (s : String) :
    ρ.Builds (Build.assignString t s) (Build.assignString (t.rename ρ.name) s) id := by
  unfold Build.assignString
  simpa using emitOp (ρ := ρ) "set" [.target t, .string s]

theorem assignExpression (t : Target) (e : Expression) :
    ρ.Builds (Build.assignExpression t e)
      (Build.assignExpression (t.rename ρ.name) (e.rename ρ.name)) id := by
  have hset := emitOp (ρ := ρ) "set" [.target t, e]
  cases e with
  | constant c =>
    obtain ⟨name, v | v | s | s⟩ := c
    · simpa [Build.assignExpression, Constant.rename] using assignInt t v
    · simpa [Build.assignExpression, Constant.rename] using assignNum t v
    · simpa [Build.assignExpression, Constant.rename] using hset
    · simpa [Build.assignExpression, Constant.rename] using hset
  | target s => simpa [Build.assignExpression] using hset
  | key k => simpa [Build.assignExpression] using hset
  | label name => simpa [Build.assignExpression] using hset

theorem sources_rename (t : Target) (left right : Expression) :
    Build.sources (t.rename ρ.name) (left.rename ρ.name) (right.rename ρ.name) =
      (Build.sources t left right).map (Expression.rename ρ.name) := by
  cases left with
  | target s =>
    simp only [Build.sources, Expression.rename_target, Target.same_rename ρ.injective]
    split <;> simp
  | constant c => simp [Build.sources]
  | key k => simp [Build.sources]
  | label name => simp [Build.sources]

theorem assignBinary (t : Target) (left : Expression) (op : BinaryOp) (right : Expression) :
    ρ.Builds (Build.assignBinary t left op right) (Build.assignBinary (t.rename ρ.name)
      (left.rename ρ.name) op (right.rename ρ.name)) id := by
  have hreduced : ρ.Builds
      (Build.emitReduced (.of op.opcode (.target t :: Build.sources t left right)))
      (Build.emitReduced (.of op.opcode (.target (t.rename ρ.name) ::
        Build.sources (t.rename ρ.name) (left.rename ρ.name) (right.rename ρ.name)))) id := by
    have := emitReduced (ρ := ρ) (.of op.opcode (.target t :: Build.sources t left right))
    rwa [Instruction.rename_of, List.map_cons, Expression.rename_target, ← sources_rename] at this
  match left, right with
  | .constant a, .constant b =>
    have hfold : fold (a.rename ρ.name) op (b.rename ρ.name) = fold a op b := rfl
    simp only [Build.assignBinary, Expression.rename_constant, hfold]
    cases hc : fold a op b with
    | ok c =>
      simpa [Constant.rename_of_fold hc] using emitOp (ρ := ρ) "set" [.target t, .constant c]
    | error e => exact complain _
  | .target _, _ | .key _, _ | .label _, _ | .constant _, .target _ | .constant _, .key _
  | .constant _, .label _ => simpa [Build.assignBinary] using hreduced

theorem assignUnary (t : Target) (op : UnaryOp) (e : Expression) :
    ρ.Builds (Build.assignUnary t op e) (Build.assignUnary (t.rename ρ.name) op (e.rename ρ.name))
      id := by
  unfold Build.assignUnary
  simpa using emitOp (ρ := ρ) op.opcode [.target t, e]

theorem augmentedAssign (t : Target) (op : BinaryOp) (e : Expression) :
    ρ.Builds (Build.augmentedAssign t op e)
      (Build.augmentedAssign (t.rename ρ.name) op (e.rename ρ.name)) id := by
  unfold Build.augmentedAssign
  simpa [Instruction.rename_of] using emitReduced (ρ := ρ) (.of op.opcode [.target t, e])

/-- Opcodes are not renamed. -/
theorem Builders.opcode {b c : Builder} (h : ρ.Builders b c) {name name' : String}
    (hname : Spared ρ.hidden name name') (hcontains : b.opcodes.contains name = true) :
    name' = name := by
  apply hname
  rintro rfl
  rw [h.hidden] at hcontains
  cases hcontains

theorem assignOp (t : Target) {name : String} (operands : List Expression)
    (hname : Spared ρ.hidden name (ρ.name name)) :
    ρ.Builds (Build.assignOp t name operands) (Build.assignOp (t.rename ρ.name) (ρ.name name)
      (operands.map (Expression.rename ρ.name))) id := by
  refine of_get (fun _ => Build.assignOp_adds t name operands) fun b c h => ?_
  cases operands with
  | nil =>
    simp only [List.map_nil, h.lookup, h.lookupConstant, h.opcodes]
    cases b.lookup name with
    | some s => simpa using emitOp (ρ := ρ) "set" [.target t, .target (.ofSymbol s)]
    | none =>
    cases b.lookupConstant name with
    | some constant => simpa using emitOp (ρ := ρ) "set" [.target t, .constant constant]
    | none =>
    dsimp only [Option.map_none]
    split
    next hcontains =>
      rw [h.opcode hname hcontains, if_pos hcontains]
      simpa using emitOp (ρ := ρ) name [.target t]
    next => exact complain _
  | cons e operands =>
    simp only [List.map_cons, h.opcodes]
    split
    next hcontains =>
      rw [h.opcode hname hcontains, if_pos hcontains]
      simpa [Instruction.rename_of] using
        emitReduced (ρ := ρ) (.of name (.target t :: e :: operands))
    next => exact complain _

/-- An object with an index is declared, or else that is reported. -/
theorem lookup_of_indexedTarget {name : String} {key : Key} {b b' : Builder} {t : Target}
    (hrun : (Build.indexedTarget (.named name) key).run b = (.ok t, b')) (hclean : Clean b') :
    (b.lookup name).isNone = false := by
  cases hlookup : b.lookup name with
  | some s => rfl
  | none =>
    obtain ⟨u, b₁, hu, hpure⟩ := exists_of_run_bind hrun
    cases hpure
    have hmissing : (Build.undeclared name .pmc (.undeclaredIndexed name)).run b = (.ok u, b') := by
      rw [Build.pmcTarget, run_bind_ok (run_get b), hlookup] at hu
      exact hu
    obtain ⟨_, b₂, hcomplain, hpure⟩ := exists_of_run_bind hmissing
    cases hpure
    exact absurd hclean (not_clean_of_report hcomplain)

theorem assignKeyed (t : Target) {name : String} (key : Key)
    (hname : Spared ρ.hidden name (ρ.name name)) :
    ρ.Builds (Build.assignKeyed t name key)
      (Build.assignKeyed (t.rename ρ.name) (ρ.name name) (key.rename ρ.name)) id := by
  have hsource : ρ.Builds
      (Build.indexedTarget (.named name) key >>= fun source =>
        Build.emitOp "set" [.target t, .target source])
      (Build.indexedTarget (.named (ρ.name name)) (key.rename ρ.name) >>= fun source =>
        Build.emitOp "set" [.target (t.rename ρ.name), .target source]) id :=
    (indexedTarget (.named name) key).bind fun source => by
      simpa using emitOp "set" [.target t, .target source]
  refine of_adds (fun _ => Build.assignKeyed_adds t name key) fun {b c b' a} h hrun hclean => ?_
  change (if ((b.lookup name).isNone && b.opcodes.contains name) = true then _ else _ :
    Build Unit).run b = _ at hrun
  show ∃ a' c', (if ((c.lookup (ρ.name name)).isNone && c.opcodes.contains (ρ.name name)) = true
    then _ else _ : Build Unit).run c = _ ∧ _
  rw [h.lookup, h.opcodes, Option.isNone_map]
  by_cases hopcode : ((b.lookup name).isNone && b.opcodes.contains name) = true
  · rw [if_pos hopcode] at hrun
    have heq := h.opcode hname (Bool.and_eq_true_iff.1 hopcode).2
    rw [heq, if_pos hopcode]
    have hop := emitOp (ρ := ρ) name [.target t, .key key]
    simp only [List.map_cons, List.map_nil, Expression.rename_target, Expression.rename_key] at hop
    exact hop.carry h hrun hclean
  · rw [if_neg hopcode] at hrun
    have hdeclared : (b.lookup name).isNone = false := by
      obtain ⟨source, b₁, hindexed, hemit⟩ := exists_of_run_bind hrun
      exact lookup_of_indexedTarget hindexed
        ((emitOp (ρ := ρ) "set" [.target t, .target source]).clean hemit hclean)
    rw [hdeclared, Bool.false_and, if_neg Bool.false_ne_true]
    exact hsource.carry h hrun hclean

/-- What was begun with a name for an opcode is ended with the same one, if it is an opcode. -/
theorem finishInstruction : ρ.Builds Build.finishInstruction Build.finishInstruction id := by
  refine of_adds (fun b => Build.finishInstruction_adds b.collects_any)
    fun {b c b' a} h hrun hclean => ?_
  unfold Build.finishInstruction at hrun ⊢
  rw [run_bind, run_get] at hrun ⊢
  simp only at hrun ⊢
  cases hb : b.pendingInstruction with
  | none =>
    rw [hb] at hrun
    rw [eq_none_of_rel h.pendingInstruction hb]
    cases hrun
    exact ⟨(), c, rfl, rfl, h⟩
  | some i =>
    rw [hb] at hrun
    obtain ⟨j, hc, hij⟩ := exists_of_rel_some h.pendingInstruction hb
    rw [hc]
    have hdropped : ρ.Builders { b with pendingInstruction := none }
        { c with pendingInstruction := none } := { h with pendingInstruction := .none }
    simp only [run_bind, run_set] at hrun ⊢
    by_cases hopcode : b.opcodes.contains i.opcode = true
    · obtain ⟨label, opcode, operands⟩ := j
      obtain rfl : opcode = i.opcode := h.opcode hij.opcode hopcode
      obtain rfl : label = i.label.map ρ.name := hij.label
      obtain rfl : operands = i.operands.map (Expression.rename ρ.name) := hij.operands
      rw [if_pos hopcode] at hrun
      rw [if_pos (h.opcodes ▸ hopcode)]
      exact (emitReduced i).carry hdropped hrun hclean
    · -- Otherwise that was reported, and what follows leaves the report there.
      rw [if_neg hopcode] at hrun
      obtain ⟨_, b₁, hcomplain, hemit⟩ := exists_of_run_bind hrun
      exact absurd ((emit (ρ := ρ) _).clean hemit hclean) (not_clean_of_report hcomplain)

/-! Conditions -/

theorem conditionalTarget (p : Polarity) (nullCheck : Bool) (t : Target) (label : String) :
    ρ.Builds (Build.conditionalTarget p nullCheck t label)
      (Build.conditionalTarget p nullCheck (t.rename ρ.name) (ρ.name label)) id := by
  have hbranch : p.variableBranch nullCheck (t.rename ρ.name) (ρ.name label) =
      (p.variableBranch nullCheck t label).rename ρ.name := by
    simp [Polarity.variableBranch, Instruction.rename_of]
  unfold Build.conditionalTarget
  rw [hbranch]
  exact (emitInstruction _).bind fun _ => done rfl

theorem conditionalKnown (p : Polarity) (value : Bool) (label : String) :
    ρ.Builds (Build.conditionalKnown p value label)
      (Build.conditionalKnown p value (ρ.name label)) id := by
  have hbranch : p.constantBranch value (ρ.name label) =
      (p.constantBranch value label).rename ρ.name := by
    unfold Polarity.constantBranch
    split <;> simp [Instruction.rename_of]
  unfold Build.conditionalKnown
  rw [hbranch]
  exact (emitInstruction _).bind fun _ => done rfl

theorem conditionalConstant (p : Polarity) (c : Constant) (label : String) :
    ρ.Builds (Build.conditionalConstant p c label)
      (Build.conditionalConstant p (c.rename ρ.name) (ρ.name label)) id := by
  have htruth : (c.rename ρ.name).truth = c.truth := rfl
  unfold Build.conditionalConstant
  rw [htruth]
  cases c.truth with
  | ok value => exact conditionalKnown p value label
  | error e => exact .raised _ _

theorem conditionalVariable (p : Polarity) (nullCheck : Bool) (name label : String) :
    ρ.Builds (Build.conditionalVariable p nullCheck name label)
      (Build.conditionalVariable p nullCheck (ρ.name name) (ρ.name label)) id := by
  have htarget : ρ.Builds
      (Build.symbolTarget name >>= fun t => Build.conditionalTarget p nullCheck t label)
      (Build.symbolTarget (ρ.name name) >>= fun t =>
        Build.conditionalTarget p nullCheck t (ρ.name label)) id :=
    (symbolTarget name).bind fun t => conditionalTarget p nullCheck t label
  refine of_get (fun _ => Build.conditionalVariable_adds p nullCheck name label) fun b c h => ?_
  rw [h.lookup, h.lookupConstant]
  cases nullCheck with
  | true => exact htarget
  | false =>
    cases b.lookup name with
    | some s => exact htarget
    | none =>
      cases b.lookupConstant name with
      | none => exact htarget
      | some constant =>
        refine .ite (fun _ => ?_) fun _ => conditionalConstant p constant label
        have hs : Target.ofSymbol (.placeholder (ρ.name name) .pmc) =
            (Target.ofSymbol (.placeholder name .pmc)).rename ρ.name := by
          rw [Target.rename_ofSymbol]
          rfl
        rw [hs]
        exact conditionalTarget p false _ label

theorem conditionalRelation (p : Polarity) (left : Expression) (op : RelOp) (right : Expression)
    (label : String) :
    ρ.Builds (Build.conditionalRelation p left op right label)
      (Build.conditionalRelation p (left.rename ρ.name) op (right.rename ρ.name) (ρ.name label))
      id := by
  have hbranch : p.relationalBranch op (left.rename ρ.name) (right.rename ρ.name) (ρ.name label) =
      (p.relationalBranch op left right label).rename ρ.name := by
    simp [Polarity.relationalBranch, Instruction.rename_of]
  have hrelational : ρ.Builds
      (Build.emit (.instruction (p.relationalBranch op left right label)) >>= fun _ =>
        Pure.pure Condition.runtime)
      (Build.emit (.instruction (p.relationalBranch op (left.rename ρ.name) (right.rename ρ.name)
        (ρ.name label))) >>= fun _ => Pure.pure Condition.runtime) id := by
    rw [hbranch]
    exact (emitInstruction _).bind fun _ => done rfl
  cases left with
  | target | key | label => simpa [Build.conditionalRelation] using hrelational
  | constant a =>
    cases right with
    | target | key | label => simpa [Build.conditionalRelation] using hrelational
    | constant b =>
      have hevaluate : evaluate (a.rename ρ.name) op (b.rename ρ.name) = evaluate a op b := rfl
      simp only [Build.conditionalRelation, Expression.rename_constant, hevaluate]
      cases evaluate a op b with
      | ok value => exact conditionalKnown p value label
      | error e =>
        exact (complain _ (R := Maps id)).bind fun _ => by
          simpa only [Expression.rename_constant] using hrelational

end Respelling
end PirFrontend
