import Mathlib.Logic.Relation
import PirFrontend.Build.Command
import PirFrontend.Proofs.Building
import PirFrontend.Proofs.Tables

/-!
What one command can do to a builder. It makes some small moves, which add no statement, and if it
succeeds at most one statement at the end; or it goes to another line, or opens or closes a
subroutine. So an invariant of the builder need only be shown for the moves, for the new statement,
and for these three.

A statement that the builder makes has no label of its own. An invocation that is handed in as a
whole may bring one; `supplied` says which labels may come in that way.
-/
namespace PirFrontend

variable {supplied : String → Prop} {b : Builder}

/-- The label of a statement, if it has one, was supplied with it. -/
def Supplied (supplied : String → Prop) (label : Option String) : Prop :=
  ∀ l, label = some l → supplied l

theorem supplied_none : Supplied supplied none := nofun

/-- New declarations stand behind the old ones; statements and labels stay as they are. -/
structure Subroutine.Gains (s s' : Subroutine) : Prop where
  name : s'.name = s.name
  statements : s'.statements = s.statements
  labels : s'.labels = s.labels
  parameters : s.parameters <+: s'.parameters
  lexicals : s.lexicals <+: s'.lexicals
  constants : s.constants.entries <+: s'.constants.entries
  symbols : s.symbols.symbols <+: s'.symbols.symbols

namespace Subroutine

variable {s s' s'' : Subroutine}

theorem Gains.trans (h : s.Gains s') (h' : s'.Gains s'') : s.Gains s'' where
  name := h'.name.trans h.name
  statements := h'.statements.trans h.statements
  labels := h'.labels.trans h.labels
  parameters := h.parameters.trans h'.parameters
  lexicals := h.lexicals.trans h'.lexicals
  constants := h.constants.trans h'.constants
  symbols := h.symbols.trans h'.symbols

/-- What is said about the subroutine as a whole touches none of its lists. -/
theorem Gains.header (s : Subroutine) (flags : FlagSet SubFlag)
    (outer vtable lexid instanceof : Option String) :
    s.Gains { s with flags, outer, vtable, lexid, instanceof } :=
  ⟨rfl, rfl, rfl, List.prefix_rfl, List.prefix_rfl, List.prefix_rfl, List.prefix_rfl⟩

theorem Gains.refl (s : Subroutine) : s.Gains s := .header s _ _ _ _ _

theorem gains_parameter (s : Subroutine) (p : Parameter) :
    s.Gains { s with parameters := s.parameters ++ [p] } :=
  { Gains.refl s with parameters := List.prefix_append _ _ }

theorem gains_lexical (s : Subroutine) (l : Lexical) :
    s.Gains { s with lexicals := s.lexicals ++ [l] } :=
  { Gains.refl s with lexicals := List.prefix_append _ _ }

theorem gains_constant {name : String} (h : s.constants.contains name = false) (c : Constant) :
    s.Gains { s with constants := s.constants.insert name c } :=
  { Gains.refl s with constants := Table.prefix_insert h c }

theorem gains_symbol {name : String} {type : ValueType} {uniqueReg : Bool} {symbol : Symbol}
    {table : SymbolTable} (h : s.symbols.declare name type uniqueReg = .ok (symbol, table)) :
    s.Gains { s with symbols := table } :=
  { Gains.refl s with symbols := SymbolTable.declare_prefix h }

end Subroutine

/-- New constants stand behind the old ones; the subroutines stay as they are. -/
structure CompilationUnit.Gains (u u' : CompilationUnit) : Prop where
  subroutines : u'.subroutines = u.subroutines
  constants : u.constants.entries <+: u'.constants.entries
  globalConstants : u.globalConstants.entries <+: u'.globalConstants.entries

namespace CompilationUnit

/-- What is said about the unit as a whole touches neither. -/
theorem Gains.header (u : CompilationUnit) (namespaceKey : Option Key) (hll : Option String)
    (hllMap : Table String) (libraries : List String) :
    u.Gains { u with namespaceKey, hll, hllMap, libraries } :=
  ⟨rfl, List.prefix_rfl, List.prefix_rfl⟩

end CompilationUnit

namespace Builder

/-- The instruction and the call block that are being collected have no labels but supplied ones. -/
structure Collects (supplied : String → Prop) (b : Builder) : Prop where
  instruction : ∀ i, b.pendingInstruction = some i → Supplied supplied i.label
  call : ∀ c, b.pendingCall = some c → Supplied supplied c.invocation.label

/-- A change that adds no statement. -/
inductive Move (supplied : String → Prop) (b : Builder) : Builder → Prop
  | report (kind : DiagnosticKind) (message : String) : b.aborted = false →
      Move supplied b (b.entered kind message)
  | label {s : Subroutine} (name : String) : b.current = some s → s.labels.contains name = false →
      Move supplied b
        { b with
          current := some { s with labels := s.labels.insert name s.statements.length }
          pendingLabel := some name }
  /-- Outside of a subroutine a statement is lost, and the label that waits for it. -/
  | spend : b.aborted = false → b.current = none → Move supplied b { b with pendingLabel := none }
  | instruction (i : Option Instruction) : (∀ j, i = some j → Supplied supplied j.label) →
      Move supplied b { b with pendingInstruction := i }
  | call (p : Option PendingCall) : (∀ q, p = some q → Supplied supplied q.invocation.label) →
      Move supplied b { b with pendingCall := p }
  | declare {s s' : Subroutine} : b.current = some s → s.Gains s' →
      Move supplied b { b with current := some s' }
  | unit (u : CompilationUnit) : b.unit.Gains u → Move supplied b { b with unit := u }

/-- Any number of moves. -/
abbrev Moves (supplied : String → Prop) : Builder → Builder → Prop :=
  Relation.ReflTransGen (Move supplied)

/-- A statement goes to the end of the open subroutine, under the label that waits for it. -/
inductive Emits (supplied : String → Prop) (b : Builder) : Builder → Prop
  | emit {s : Subroutine} (st : Statement) : b.aborted = false → b.current = some s →
      Supplied supplied st.label → Emits supplied b
        { b with
          pendingLabel := none
          current := some { s with statements := s.statements ++ [st.labelled b.pendingLabel] } }

/-- What a command answers and does that neither opens nor closes a subroutine. A failure leaves
moves only. -/
inductive Stays (supplied : String → Prop) (b : Builder) : Except Fatal Reply × Builder → Prop
  | moves {c : Builder} (r : Except Fatal Reply) : b.Moves supplied c → Stays supplied b (r, c)
  | emits {c d : Builder} (r : Reply) : b.Moves supplied c → c.Emits supplied d →
      Stays supplied b (.ok r, d)
  | line {c : Builder} (n : Nat) : b.Moves supplied c →
      Stays supplied b (.ok .done, { c with line := n })

/-- What one command answers and does. -/
inductive Step (supplied : String → Prop) (b : Builder) : Except Fatal Reply × Builder → Prop
  | stays {r : Except Fatal Reply × Builder} : b.Stays supplied r → Step supplied b r
  | opens (r : Reply) (name : String) : Step supplied b (.ok r, (b.openSub name).2)
  | closes (r : Reply) : Step supplied b (.ok r, b.closeSub.2)

variable {c : Builder}

theorem Move.collects (h : b.Move supplied c) (hb : b.Collects supplied) : c.Collects supplied := by
  cases h with
  | report => exact ⟨hb.instruction, hb.call⟩
  | label => exact ⟨hb.instruction, hb.call⟩
  | spend => exact ⟨hb.instruction, hb.call⟩
  | instruction i hi => exact ⟨hi, hb.call⟩
  | call p hp => exact ⟨hb.instruction, hp⟩
  | declare => exact ⟨hb.instruction, hb.call⟩
  | unit => exact ⟨hb.instruction, hb.call⟩

theorem Moves.collects (h : b.Moves supplied c) (hb : b.Collects supplied) :
    c.Collects supplied := by
  induction h with
  | refl => exact hb
  | tail _ hmove ih => exact hmove.collects ih

theorem collects_new (options : BuildOptions) : (Builder.new options).Collects supplied := by
  constructor
  · rintro i ⟨⟩
  · rintro c ⟨⟩

theorem collects_closeSub (hb : b.Collects supplied) : b.closeSub.2.Collects supplied := by
  unfold closeSub
  split
  · exact hb
  · exact ⟨nofun, nofun⟩

theorem Stays.collects {r : Except Fatal Reply × Builder} (h : b.Stays supplied r)
    (hb : b.Collects supplied) : r.2.Collects supplied := by
  cases h with
  | moves _ h => exact h.collects hb
  | emits _ h he =>
    cases he with
    | emit => exact ⟨(h.collects hb).instruction, (h.collects hb).call⟩
  | line _ h => exact ⟨(h.collects hb).instruction, (h.collects hb).call⟩

theorem Step.collects {r : Except Fatal Reply × Builder} (h : b.Step supplied r)
    (hb : b.Collects supplied) : r.2.Collects supplied := by
  cases h with
  | stays h => exact h.collects hb
  | opens => exact ⟨(collects_closeSub hb).instruction, (collects_closeSub hb).call⟩
  | closes => exact collects_closeSub hb

theorem moves_modifySub {f : Subroutine → Subroutine}
    (hf : ∀ s, b.current = some s → s.Gains (f s)) : b.Moves supplied (b.modifySub f) := by
  cases hs : b.current with
  | none =>
    have heq : b.modifySub f = b := by
      show { b with current := b.current.map f } = b
      rw [hs, Option.map_none, ← hs]
    rw [heq]
  | some s =>
    have heq : b.modifySub f = { b with current := some (f s) } := by
      show { b with current := b.current.map f } = _
      rw [hs, Option.map_some]
    rw [heq]
    exact .single (.declare hs (hf s hs))

end Builder

/-! The cheaper form of an instruction stands under the label of the instruction -/

theorem Instruction.label_simplify (r : Reduction) (i : Instruction) :
    (i.simplify r).2.label = i.label := by
  unfold simplify
  split
  · split <;> rfl
  · rfl

theorem Instruction.label_reduce (i : Instruction) : i.reduce.2.label = i.label := by
  unfold reduce
  split
  · split <;> apply label_simplify
  · rfl

namespace Build

variable {α β : Type} {x : Build α} {f : α → Build β}

/-- The action only makes moves, whether it succeeds or not. -/
def Moves (supplied : String → Prop) (x : Build α) (b : Builder) : Prop :=
  b.Moves supplied (x.run b).2

/-- The action makes moves, and perhaps adds one statement at the end; then it has succeeded. -/
def Adds (supplied : String → Prop) (x : Build α) (b : Builder) : Prop :=
  ∃ c, b.Moves supplied c ∧
    ((x.run b).2 = c ∨ (∃ a, (x.run b).1 = .ok a) ∧ c.Emits supplied (x.run b).2)

theorem Moves.adds (h : x.Moves supplied b) : x.Adds supplied b := ⟨_, h, .inl rfl⟩

theorem Moves.pure (a : α) : (pure a : Build α).Moves supplied b := .refl

theorem Moves.throw (e : Fatal) : (throw e : Build α).Moves supplied b := .refl

theorem Moves.bind (hx : x.Moves supplied b)
    (hf : ∀ a c, x.run b = (.ok a, c) → (f a).Moves supplied c) : (x >>= f).Moves supplied b := by
  unfold Moves at *
  rw [run_bind]
  -- An action that fails stops the rest, and what it did stays.
  cases hr : x.run b with
  | mk r c =>
    rw [hr] at hx
    cases r with
    | error e => exact hx
    | ok a => exact hx.trans (hf a c hr)

theorem Moves.bind_adds (hx : x.Moves supplied b)
    (hf : ∀ a c, x.run b = (.ok a, c) → (f a).Adds supplied c) : (x >>= f).Adds supplied b := by
  unfold Moves Adds at *
  rw [run_bind]
  cases hr : x.run b with
  | mk r c =>
    rw [hr] at hx
    cases r with
    | error e => exact ⟨c, hx, .inl rfl⟩
    | ok a =>
      obtain ⟨d, hd, he⟩ := hf a c hr
      exact ⟨d, hx.trans hd, he⟩

theorem Moves.map (hx : x.Moves supplied b) (g : α → β) : (g <$> x).Moves supplied b :=
  hx.bind fun _ _ _ => .pure _

/-- What comes behind changes nothing more. -/
theorem Adds.map (hx : x.Adds supplied b) (g : α → β) : (g <$> x).Adds supplied b := by
  unfold Adds at *
  rw [run_map]
  cases hr : x.run b with
  | mk r d =>
    rw [hr] at hx
    obtain ⟨c, hc, heq | ⟨⟨a, rfl⟩, he⟩⟩ := hx
    · refine ⟨c, hc, .inl ?_⟩
      rw [← heq]
      cases r <;> rfl
    · exact ⟨c, hc, .inr ⟨⟨g a, rfl⟩, he⟩⟩

theorem Moves.modify {g : Builder → Builder} (h : b.Moves supplied (g b)) :
    (modify g : Build PUnit).Moves supplied b := h

theorem Moves.set {c : Builder} (h : b.Moves supplied c) :
    (set c : Build PUnit).Moves supplied b := h

theorem Moves.get {f : Builder → Build α} (h : (f b).Moves supplied b) :
    (do f (← get)).Moves supplied b := h

theorem Adds.get {f : Builder → Build α} (h : (f b).Adds supplied b) :
    (do f (← get)).Adds supplied b := h

/-! What all actions are made of -/

theorem report_moves (kind : DiagnosticKind) (message : String) :
    (report kind message).Moves supplied b := by
  unfold Moves
  obtain ⟨-, hr⟩ | ⟨ha, hmany, hr⟩ | ⟨ha, hfew, hr⟩ := report_cases kind message b
  · rw [hr]
  · rw [hr, ← Builder.entered_of_overfull hmany]
    exact .single (.report kind message ha)
  · rw [hr, ← Builder.entered_of_tolerated ha hfew]
    exact .single (.report kind message ha)

theorem complain_moves (p : Problem) : (complain p).Moves supplied b := report_moves _ _

theorem currentSub_moves : currentSub.Moves supplied b := by
  apply Moves.get
  split
  · exact .pure _
  · exact .throw _

theorem run_currentSub_ok {s : Subroutine} {c : Builder} (h : currentSub.run b = (.ok s, c)) :
    b.current = some s ∧ c = b := by
  cases hs : b.current with
  | none =>
    rw [run_currentSub_none hs] at h
    cases h
  | some t =>
    rw [run_currentSub hs] at h
    cases h
    exact ⟨rfl, rfl⟩

theorem emit_adds {st : Statement} (h : Supplied supplied st.label) :
    (emit st).Adds supplied b := by
  cases ha : b.aborted with
  | true => exact ⟨b, .refl, .inl (by rw [run_emit_refused ha])⟩
  | false =>
    cases hs : b.current with
    | none =>
      -- The statement is lost, but the label that waited for it is spent.
      exact ⟨_, .single (.spend ha hs), .inl (by rw [run_emit_outside ha hs])⟩
    | some s =>
      refine ⟨b, .refl, .inr ?_⟩
      rw [run_emit ha hs]
      exact ⟨⟨(), rfl⟩, .emit st ha hs h⟩

theorem emitOp_adds (opcode : String) (operands : List Expression) :
    (emitOp opcode operands).Adds supplied b :=
  emit_adds supplied_none

theorem emitReduced_adds {i : Instruction} (h : Supplied supplied i.label) :
    (emitReduced i).Adds supplied b := by
  have hlabel : Supplied supplied (Statement.instruction i.reduce.2).label := by
    rw [Statement.label, Instruction.label_reduce]
    exact h
  unfold emitReduced
  dsimp only
  split
  · exact (complain_moves _).bind_adds fun _ _ _ => emit_adds hlabel
  · exact emit_adds hlabel

/-! Declarations -/

theorem declareConstant_moves (name : String) (value : ConstantValue) :
    (declareConstant name value).Moves supplied b := by
  apply Moves.get
  dsimp only
  split
  next s hs =>
    split
    next => exact complain_moves _
    next hnew =>
      refine .set (Builder.moves_modifySub fun t ht => ?_)
      obtain rfl : s = t := Option.some.inj (hs.symm.trans ht)
      exact Subroutine.gains_constant (by simpa using hnew) _
  next =>
    split
    next => exact complain_moves _
    next hnew =>
      have hgains := Table.prefix_insert (by simpa using hnew) (Constant.named name value)
      exact .set (.single (.unit _ ⟨rfl, hgains, List.prefix_rfl⟩))

theorem declareGlobalConstant_moves (name : String) (value : ConstantValue) :
    (declareGlobalConstant name value).Moves supplied b := by
  apply Moves.get
  dsimp only
  split
  next => exact complain_moves _
  next hnew =>
    have hgains := Table.prefix_insert (by simpa using hnew) (Constant.named name value)
    exact .set (.single (.unit _ ⟨rfl, List.prefix_rfl, hgains⟩))

theorem declareSymbol_moves (name : String) (type : ValueType) (uniqueReg : Bool)
    {attach : Symbol → Subroutine → Subroutine}
    (ha : ∀ (symbol : Symbol) (s : Subroutine), s.Gains (attach symbol s)) :
    (declareSymbol name type uniqueReg attach).Moves supplied b := by
  apply currentSub_moves.bind
  intro s c hrun
  obtain ⟨hs, rfl⟩ := run_currentSub_ok hrun
  split
  next hdeclare =>
    refine .modify (Builder.moves_modifySub fun t ht => ?_)
    obtain rfl : s = t := Option.some.inj (hs.symm.trans ht)
    exact (Subroutine.gains_symbol hdeclare).trans (ha _ _)
  next => exact complain_moves _

theorem declareLocals_moves (type : ValueType) (names : List (String × Bool)) :
    (declareLocals type names).Moves supplied b := by
  induction names generalizing b with
  | nil => exact .pure _
  | cons entry names ih =>
    exact (declareSymbol_moves _ _ _ fun _ s => .refl s).bind fun _ _ _ => ih

theorem bindLexical_moves (name : String) (t : Target) :
    (bindLexical name t).Moves supplied b :=
  currentSub_moves.bind fun _ _ _ =>
    .modify (Builder.moves_modifySub fun s _ => s.gains_lexical _)

theorem setLabel_moves (name : String) : (setLabel name).Moves supplied b := by
  apply currentSub_moves.bind
  intro s c hrun
  obtain ⟨hs, rfl⟩ := run_currentSub_ok hrun
  split
  next => exact complain_moves _
  next hnew =>
    have hlabel := @Builder.Move.label supplied _ _ name hs (by simpa using hnew)
    -- The label is entered and waits in one move, not in two.
    have heq : ({ c.modifySub fun s =>
          { s with labels := s.labels.insert name s.statements.length } with
        pendingLabel := some name } : Builder) =
        { c with
          current := some { s with labels := s.labels.insert name s.statements.length }
          pendingLabel := some name } := by
      simp [Builder.modifySub, hs]
    exact .modify (by rw [heq]; exact .single hlabel)

/-! Operands -/

theorem undeclared_moves (name : String) (type : ValueType) (p : Problem) :
    (undeclared name type p).Moves supplied b :=
  (complain_moves p).bind fun _ _ _ => .pure _

theorem symbolTarget_moves (name : String) : (symbolTarget name).Moves supplied b := by
  apply Moves.get
  split
  · exact .pure _
  · exact undeclared_moves _ _ _

theorem identifierValue_moves (name : String) : (identifierValue name).Moves supplied b := by
  apply Moves.get
  split
  · exact .pure _
  · exact (symbolTarget_moves name).bind fun _ _ _ => .pure _

theorem pmcTarget_moves (object : PmcObject) (missing mismatch : String → Problem) :
    (pmcTarget object missing mismatch).Moves supplied b := by
  unfold pmcTarget
  split
  · exact .pure _
  · apply Moves.get
    split
    · exact undeclared_moves _ _ _
    · split
      · exact .pure _
      · exact (complain_moves _).bind fun _ _ _ => .pure _

theorem indexedTarget_moves (object : PmcObject) (key : Key) :
    (indexedTarget object key).Moves supplied b :=
  (pmcTarget_moves _ _ _).bind fun _ _ _ => .pure _

theorem pmcObject_moves (object : PmcObject) : (pmcObject object).Moves supplied b := by
  unfold pmcObject
  split
  · exact .pure _
  · apply Moves.get
    split
    · exact .pure _
    · exact undeclared_moves _ _ _

theorem methodTarget_moves (name : String) : (methodTarget name).Moves supplied b := by
  apply Moves.get
  split
  · exact (undeclared_moves _ _ _).bind fun _ _ _ => .pure _
  · split
    · exact .pure _
    · exact (complain_moves _).bind fun _ _ _ => .pure _

theorem declareLexical_moves (name : String) (object : PmcObject) :
    (declareLexical name object).Moves supplied b :=
  (pmcTarget_moves _ _ _).bind fun _ _ _ => bindLexical_moves _ _

/-! Statements -/

theorem finishInstruction_adds (hb : b.Collects supplied) :
    finishInstruction.Adds supplied b := by
  apply Adds.get
  split
  next => exact (Moves.pure _).adds
  next i hi =>
    have hlabel := hb.instruction i hi
    apply (Moves.set (.single (.instruction none nofun))).bind_adds
    intro _ c _
    split
    · exact emitReduced_adds hlabel
    · exact (complain_moves _).bind_adds fun _ _ _ => emit_adds hlabel

theorem pushOperand_moves (hb : b.Collects supplied) (e : Expression) :
    b.Moves supplied (b.pushOperand e) := by
  refine .single (.instruction _ ?_)
  intro j hj
  obtain ⟨i, hi, rfl⟩ := Option.map_eq_some_iff.mp hj
  exact hb.instruction i hi

theorem pushOperands_moves (hb : b.Collects supplied) (operands : List Expression) :
    b.Moves supplied (operands.foldl Builder.pushOperand b) := by
  induction operands generalizing b with
  | nil => exact .refl
  | cons e operands ih =>
    have hpush := pushOperand_moves hb e
    exact hpush.trans (ih (hpush.collects hb))

theorem beginInstruction_moves (opcode : String) :
    b.Moves supplied (b.beginInstruction opcode) := by
  refine .single (.instruction _ ?_)
  rintro _ ⟨⟩
  exact supplied_none

theorem machineInstruction_adds (hb : b.Collects supplied) (opcode : String)
    (operands : List Expression) : (machineInstruction opcode operands).Adds supplied b := by
  have hbegin : b.Moves supplied (b.beginInstruction opcode) := beginInstruction_moves opcode
  have hmoves : b.Moves supplied (operands.foldl Builder.pushOperand (b.beginInstruction opcode)) :=
    hbegin.trans (pushOperands_moves (hbegin.collects hb) operands)
  apply (Moves.modify hmoves).bind_adds
  -- What is finished is the instruction that was collected by then.
  rintro _ _ ⟨⟩
  exact finishInstruction_adds (hmoves.collects hb)

theorem keyedStore_adds (object : PmcObject) (key : Key) (value : Expression) :
    (keyedStore object key value).Adds supplied b :=
  (indexedTarget_moves _ _).bind_adds fun _ _ _ => emitOp_adds _ _

theorem assignInt_adds (t : Target) (value : Int64) : (assignInt t value).Adds supplied b := by
  unfold assignInt
  split <;> exact emitOp_adds _ _

theorem assignNum_adds (t : Target) (value : Float) : (assignNum t value).Adds supplied b := by
  unfold assignNum
  split <;> exact emitOp_adds _ _

theorem assignExpression_adds (t : Target) (value : Expression) :
    (assignExpression t value).Adds supplied b := by
  unfold assignExpression
  split
  · exact assignInt_adds _ _
  · exact assignNum_adds _ _
  · exact emitOp_adds _ _

theorem assignBinary_adds (t : Target) (left : Expression) (op : BinaryOp) (right : Expression) :
    (assignBinary t left op right).Adds supplied b := by
  unfold assignBinary
  split
  · split
    · exact emitOp_adds _ _
    · exact (complain_moves _).adds
  · exact emitReduced_adds supplied_none

theorem assignOp_adds (t : Target) (name : String) (operands : List Expression) :
    (assignOp t name operands).Adds supplied b := by
  apply Adds.get
  split
  · split
    · exact emitOp_adds _ _
    · split
      · exact emitOp_adds _ _
      · split
        · exact emitOp_adds _ _
        · exact (complain_moves _).adds
  · split
    · exact emitReduced_adds supplied_none
    · exact (complain_moves _).adds

theorem assignKeyed_adds (t : Target) (name : String) (key : Key) :
    (assignKeyed t name key).Adds supplied b := by
  apply Adds.get
  split
  · exact emitOp_adds _ _
  · exact (indexedTarget_moves _ _).bind_adds fun _ _ _ => emitOp_adds _ _

/-! Conditions -/

theorem conditionalTarget_adds (p : Polarity) (nullCheck : Bool) (t : Target) (label : String) :
    (conditionalTarget p nullCheck t label).Adds supplied b :=
  (emit_adds supplied_none).map fun _ => Condition.runtime

theorem conditionalKnown_adds (p : Polarity) (value : Bool) (label : String) :
    (conditionalKnown p value label).Adds supplied b := by
  have hlabel : (p.constantBranch value label).label = none := by
    unfold Polarity.constantBranch
    split <;> rfl
  refine (emit_adds ?_).map fun _ => Condition.known value
  rw [Statement.label, hlabel]
  exact supplied_none

theorem conditionalConstant_adds (p : Polarity) (c : Constant) (label : String) :
    (conditionalConstant p c label).Adds supplied b := by
  unfold conditionalConstant
  split
  · exact conditionalKnown_adds _ _ _
  · exact (Moves.throw _).adds

theorem conditionalVariable_adds (p : Polarity) (nullCheck : Bool) (name label : String) :
    (conditionalVariable p nullCheck name label).Adds supplied b := by
  apply Adds.get
  split
  · split
    · exact conditionalTarget_adds _ _ _ _
    · exact conditionalConstant_adds _ _ _
  · exact (symbolTarget_moves _).bind_adds fun _ _ _ => conditionalTarget_adds _ _ _ _

theorem conditionalRelation_adds (p : Polarity) (left : Expression) (op : RelOp)
    (right : Expression) (label : String) :
    (conditionalRelation p left op right label).Adds supplied b := by
  unfold conditionalRelation
  split
  · split
    · exact conditionalKnown_adds _ _ _
    · exact (complain_moves _).bind_adds fun _ _ _ =>
        (emit_adds supplied_none).map fun _ => Condition.runtime
  · exact (emit_adds supplied_none).map fun _ => Condition.runtime

/-! Call blocks -/

theorem run_currentCall_none (hc : b.pendingCall = none) :
    currentCall.run b = (.error (.internal "no call block is open"), b) := by
  unfold currentCall
  rw [run_bind, run_get]
  simp only [hc]
  rfl

theorem changeCall_moves {f : PendingCall → PendingCall} (hb : b.Collects supplied)
    (hf : ∀ c, (f c).invocation.label = c.invocation.label) :
    (changeCall f).Moves supplied b := by
  cases hc : b.pendingCall with
  | some call =>
    have hlabel := hb.call call hc
    unfold Moves
    rw [run_changeCall hc]
    refine .single (.call _ ?_)
    rintro _ ⟨⟩
    rwa [hf]
  | none =>
    unfold Moves changeCall
    rw [run_bind_error (run_currentCall_none hc)]

theorem endCall_adds (hb : b.Collects supplied) : endCall.Adds supplied b := by
  apply Adds.get
  split
  next => exact (complain_moves _).adds
  next call hcall =>
    -- The block is taken away first, so its label is asked for while it is still there.
    apply (Moves.set (.single (.call none nofun))).bind_adds
    intro _ c _
    split
    · exact emit_adds (hb.call call hcall)
    · exact (complain_moves _).adds

end Build

/-! One command, and a script of them -/

/-- Whether a command opens or closes a subroutine. -/
def Command.frames : Command → Bool
  | openSub _ | closeSub => true
  | _ => false

theorem Command.of_frames {command : Command} (h : command.frames = true) :
    (∃ name, command = .openSub name) ∨ command = .closeSub := by
  unfold frames at h
  split at h
  · exact .inl ⟨_, rfl⟩
  · exact .inr rfl
  · cases h

/-- The labels of the invocations that a command hands in are supplied ones. -/
def Command.Supplies (supplied : String → Prop) : Command → Prop
  | shortInvocation i _ | tailcall i => Supplied supplied i.label
  | _ => True

namespace Reply

variable {α : Type}

theorem stays_of_moves {x : Build α} (h : x.Moves supplied b) (g : α → Reply) :
    b.Stays supplied ((g <$> x).run b) :=
  .moves _ (h.map g)

theorem stays_of_adds {x : Build α} (h : x.Adds supplied b) (g : α → Reply) :
    b.Stays supplied ((g <$> x).run b) := by
  obtain ⟨c, hc, hend⟩ := h.map g
  cases hr : (g <$> x).run b with
  | mk r d =>
    rw [hr] at hend
    obtain rfl | ⟨⟨a, rfl⟩, he⟩ := hend
    · exact .moves r hc
    · exact .emits a hc he

theorem ofUnit_moves {x : Build Unit} (h : x.Moves supplied b) :
    b.Stays supplied ((ofUnit x).run b) :=
  stays_of_moves h fun _ => done

theorem ofUnit_adds {x : Build Unit} (h : x.Adds supplied b) :
    b.Stays supplied ((ofUnit x).run b) :=
  stays_of_adds h fun _ => done

theorem ofChange_moves {f : Builder → Builder} (h : b.Moves supplied (f b)) :
    b.Stays supplied ((ofChange f).run b) :=
  ofUnit_moves (Build.Moves.modify h)

theorem ofChange_move {c : Builder} {f : Builder → Builder} (h : b.Move supplied c)
    (heq : f b = c) : b.Stays supplied ((ofChange f).run b) :=
  ofChange_moves (heq ▸ .single h)

theorem ofChange_header {f : Subroutine → Subroutine} (h : ∀ s : Subroutine, s.Gains (f s)) :
    b.Stays supplied ((ofChange (·.modifySub f)).run b) :=
  ofChange_moves (Builder.moves_modifySub fun s _ => h s)

end Reply

open Reply Build in
/-- Whatever a command does, and however it ends, if it is not about the beginning or the end of a
subroutine. -/
theorem Command.stays {command : Command} (hframes : command.frames = false)
    (hs : command.Supplies supplied) (hb : b.Collects supplied) :
    b.Stays supplied (b.perform command) := by
  cases command with
  | report kind message => exact ofUnit_moves (report_moves _ _)
  | malformed message => exact ofUnit_moves (report_moves _ _)
  | loadLibrary name =>
    exact ofChange_move (.unit (b.loadLibrary name).unit (.header _ _ _ _ _)) rfl
  | setHll name => exact ofChange_move (.unit (b.setHll name).unit (.header _ _ _ _ _)) rfl
  | setHllMap core hll =>
    exact ofChange_move (.unit (b.setHllMap core hll).unit (.header _ _ _ _ _)) rfl
  | setNamespace key =>
    exact ofChange_move (.unit (b.setNamespace key).unit (.header _ _ _ _ _)) rfl
  | declareConstant name value => exact ofUnit_moves (declareConstant_moves _ _)
  | declareGlobalConstant name value => exact ofUnit_moves (declareGlobalConstant_moves _ _)
  | openSub name => cases hframes
  | closeSub => cases hframes
  | setSubFlags flags => exact ofChange_header fun s => .header s _ _ _ _ _
  | setSubOuter name => exact ofChange_header fun s => .header s _ _ _ _ _
  | setSubVtable name => exact ofChange_header fun s => .header s _ _ _ _ _
  | setSubLexid id => exact ofChange_header fun s => .header s _ _ _ _ _
  | setSubInstanceof name => exact ofChange_header fun s => .header s _ _ _ _ _
  | addParameter => exact ofUnit_moves (declareSymbol_moves _ _ _ fun _ s => s.gains_parameter _)
  | beginStatement line => exact .line line (.single (.instruction none nofun))
  | setLine line => exact .line line .refl
  | setLabel name => exact ofUnit_moves (setLabel_moves _)
  | endStatement => exact ofChange_move (.instruction none nofun) rfl
  | recoverStatement => exact ofChange_move (.instruction none nofun) rfl
  | registerTarget type number => exact .moves _ .refl
  | symbolTarget name => exact stays_of_moves (symbolTarget_moves _) _
  | identifierValue name => exact stays_of_moves (identifierValue_moves _) _
  | identifierOperand name => exact .moves _ .refl
  | indexedTarget object key => exact stays_of_moves (indexedTarget_moves _ _) _
  | pmcObject object => exact stays_of_moves (pmcObject_moves _) _
  | invocantTarget object => exact stays_of_moves (pmcTarget_moves _ _ _) _
  | methodTarget name => exact stays_of_moves (methodTarget_moves _) _
  | beginInstruction opcode => exact ofChange_moves (beginInstruction_moves _)
  | pushOperand e => exact ofChange_moves (pushOperand_moves hb _)
  | finishInstruction => exact ofUnit_adds (finishInstruction_adds hb)
  | machineInstruction opcode operands => exact ofUnit_adds (machineInstruction_adds hb _ _)
  | keyedStore object key value => exact ofUnit_adds (keyedStore_adds _ _ _)
  | nullTarget t => exact ofUnit_adds (emitOp_adds _ _)
  | getResults targets => exact ofUnit_adds (emitOp_adds _ _)
  | gotoLabel label => exact ofUnit_adds (emitOp_adds _ _)
  | assignInt t value => exact ofUnit_adds (assignInt_adds _ _)
  | assignNum t value => exact ofUnit_adds (assignNum_adds _ _)
  | assignString t value => exact ofUnit_adds (emitOp_adds _ _)
  | assignExpression t value => exact ofUnit_adds (assignExpression_adds _ _)
  | assignBinary t left op right => exact ofUnit_adds (assignBinary_adds _ _ _ _)
  | assignUnary t op value => exact ofUnit_adds (emitOp_adds _ _)
  | assignOp t name operands => exact ofUnit_adds (assignOp_adds _ _ _)
  | assignKeyed t name key => exact ofUnit_adds (assignKeyed_adds _ _ _)
  | augmentedAssign t op value => exact ofUnit_adds (emitReduced_adds supplied_none)
  | conditionalVariable p nullCheck name label =>
    exact stays_of_adds (conditionalVariable_adds _ _ _ _) _
  | conditionalTarget p nullCheck t label =>
    exact stays_of_adds (conditionalTarget_adds _ _ _ _) _
  | conditionalConstant p c label => exact stays_of_adds (conditionalConstant_adds _ _ _) _
  | conditionalRelation p left op right label =>
    exact stays_of_adds (conditionalRelation_adds _ _ _ _ _) _
  | declareLocals type names => exact ofUnit_moves (declareLocals_moves _ _)
  | declareLexical name object => exact ofUnit_moves (declareLexical_moves _ _)
  | shortInvocation i results => exact ofUnit_adds (emit_adds hs)
  | tailcall i => exact ofUnit_adds (emit_adds hs)
  | returnArguments arguments => exact ofUnit_adds (emit_adds supplied_none)
  | yieldArguments arguments => exact ofUnit_adds (emit_adds supplied_none)
  | beginCall => exact ofChange_move (.call _ (by rintro _ ⟨⟩; exact supplied_none)) rfl
  | beginReturn kind => exact ofChange_move (.call _ (by rintro _ ⟨⟩; exact supplied_none)) rfl
  | setArgument a => exact ofUnit_moves (changeCall_moves hb fun _ => rfl)
  | callTarget callee retcont => exact ofUnit_moves (changeCall_moves hb fun _ => rfl)
  | nciCallTarget callee => exact ofUnit_moves (changeCall_moves hb fun _ => rfl)
  | setInvocant invocant => exact ofUnit_moves (changeCall_moves hb fun _ => rfl)
  | methodCallTarget method => exact ofUnit_moves (changeCall_moves hb fun _ => rfl)
  | getResult t => exact ofUnit_moves (changeCall_moves hb fun _ => rfl)
  | endCall => exact ofUnit_adds (endCall_adds hb)
  | isOpcode name => exact .moves _ .refl

/-- Each command takes one step. -/
theorem Command.step {command : Command} (hs : command.Supplies supplied)
    (hb : b.Collects supplied) : b.Step supplied (b.perform command) := by
  cases hframes : command.frames with
  | false => exact .stays (stays hframes hs hb)
  | true =>
    obtain ⟨name, rfl⟩ | rfl := of_frames hframes
    · exact .opens _ name
    · exact .closes _

/-- Where it does not matter which labels are supplied, nothing is asked of the builder. -/
theorem Builder.collects_any (b : Builder) : b.Collects fun _ => True :=
  ⟨fun _ _ _ _ => trivial, fun _ _ _ _ => trivial⟩

theorem Command.supplies_any (command : Command) : command.Supplies fun _ => True := by
  cases command <;> first | trivial | exact fun _ _ => trivial

theorem Command.step_any (command : Command) (b : Builder) :
    b.Step (fun _ => True) (b.perform command) :=
  step command.supplies_any b.collects_any

theorem Command.stays_any {command : Command} (h : command.frames = false) (b : Builder) :
    b.Stays (fun _ => True) (b.perform command) :=
  stays h command.supplies_any b.collects_any

end PirFrontend
