import PirFrontend.Proofs.Operands

/-!
Two builders side by side: every action that makes statements from operands keeps them related,
since all of them report problems and emit.
-/
namespace PirFrontend

open PirFrontend.Parser (Place Block)

theorem Instruction.mem_operands_simplify {r : Reduction} {i : Instruction} {e : Expression}
    (h : e ∈ (i.simplify r).2.operands) : e ∈ i.operands := by
  unfold Instruction.simplify at h
  split at h
  · split at h <;> simp_all
  · exact h

theorem Instruction.mem_dropRepeated {operands rest : List Expression} {e : Expression}
    (h : dropRepeated? operands = some rest) (he : e ∈ rest) : e ∈ operands := by
  unfold dropRepeated? at h
  split at h
  · split at h
    · obtain rfl := Option.some.inj h
      obtain rfl | he := List.mem_cons.1 he
      · exact List.mem_cons_self
      · exact List.mem_cons_of_mem _ (List.mem_cons_of_mem _ he)
    · cases h
  · cases h

/-- The cheaper form of an instruction has no new operands. -/
theorem Instruction.mem_operands_reduce {i : Instruction} {e : Expression}
    (h : e ∈ i.reduce.2.operands) : e ∈ i.operands := by
  unfold Instruction.reduce at h
  split at h
  · split at h
    next operands hdrop => exact mem_dropRepeated hdrop (mem_operands_simplify h)
    next => exact mem_operands_simplify h
  · exact h

namespace Pairing

variable {α β : Type} {P : Pairing} {p : Place} {b c : Builder}

theorem Answers.keeps {x : Build α} {f : α → Build β} {R : Builder → α → Prop} {p' : Place}
    (hx : P.Answers p x b c R)
    (hf : ∀ a b' c', b.Within b' → P.rel p b' c' → R b' a → P.Keeps p' (f a) b' c') :
    P.Keeps p' (x >>= f) b c :=
  Agree.bind hx fun a b' c' ⟨hrel, hw, hr⟩ => hf a b' c' hw hrel hr

/-- What depends on the state of both builders depends on what they have in common. -/
theorem Keeps.get {f : Builder → Build α} (hbc : (f c).run c = (f b).run c)
    (h : P.Keeps p (f b) b c) : P.Keeps p (do f (← get)) b c := by
  unfold Keeps at *
  rw [run_bind, run_bind]
  simp only [run_get]
  rwa [hbc]

theorem Keeps.andThen {x : Build α} {y : Build β} (hx : P.Keeps p x b c)
    (hy : ∀ b' c', P.past p b' c' → P.Keeps p y b' c') : P.Keeps p (do let _ ← x; y) b c :=
  Agree.bind hx fun _ b' c' hpast => hy b' c' hpast

theorem complain_keeps [P.Readable] (h : P.rel p b c) {q : Problem} (hq : q.isInline = true) :
    P.Keeps p (Build.complain q) b c :=
  (Readable.report q.message (q.kind_ne_malformed hq) h).imp
    fun _ _ _ _ hrel => Readable.passed hrel

variable [P.Buildable]

theorem emit_keeps (h : P.rel .body b c) {i : Instruction}
    (hi : ∀ e ∈ i.operands, b.MadeSource e) :
    P.Keeps .body (Build.emit (.instruction i)) b c :=
  Buildable.emit h (.instruction hi)

theorem emitOp_keeps (h : P.rel .body b c) (opcode : String) {operands : List Expression}
    (ho : ∀ e ∈ operands, b.MadeSource e) : P.Keeps .body (Build.emitOp opcode operands) b c :=
  emit_keeps h ho

theorem emitReduced_keeps (h : P.rel .body b c) {i : Instruction}
    (hi : ∀ e ∈ i.operands, b.MadeSource e) : P.Keeps .body (Build.emitReduced i) b c := by
  have hi' : ∀ e ∈ i.reduce.2.operands, b.MadeSource e := fun e he =>
    hi e (Instruction.mem_operands_reduce he)
  unfold Build.emitReduced
  dsimp only
  split
  · apply (complain_answers h (by rfl)).keeps
    intro _ b' c' hw hrel _
    exact emit_keeps hrel fun e he => (hi' e he).within hw
  · exact emit_keeps h hi'

theorem finishInstruction_keeps (h : P.rel .body b c)
    (hi : ∀ i, b.pendingInstruction = some i → ∀ e ∈ i.operands, b.MadeSource e) :
    P.Keeps .body Build.finishInstruction b c := by
  have ha := Readable.alike h
  unfold Keeps Build.finishInstruction
  rw [run_bind, run_bind]
  simp only [run_get]
  cases hp : b.pendingInstruction with
  | none =>
    rw [← ha.pendingInstruction, hp]
    exact .ok (Readable.passed h)
  | some i =>
    rw [← ha.pendingInstruction, hp]
    dsimp only
    rw [run_bind, run_bind]
    simp only [run_set]
    have hrel := Buildable.instruction none h
    have hi' : ∀ e ∈ i.operands, ({ b with pendingInstruction := none } : Builder).MadeSource e :=
      fun e he => Builder.MadeSource.mono (b := b) (fun _ => rfl) id (hi i hp e he)
    -- Both runs know the same operations, so both complain of this one or neither does.
    have hop : c.opcodes.contains i.opcode = b.opcodes.contains i.opcode := by rw [ha.opcodes]
    rw [hop]
    split
    · exact emitReduced_keeps hrel hi'
    · apply (complain_answers hrel (by rfl)).keeps
      intro _ b' c' hw hrel _
      exact emit_keeps hrel fun e he => (hi' e he).within hw

/-! Assignments -/

variable {t : Target} {e left right : Expression}

theorem keyedStore_keeps (h : P.rel .body b c) (object : PmcObject) {key : Key}
    (hk : b.Made (.key key)) (he : b.Made e) :
    P.Keeps .body (Build.keyedStore object key e) b c := by
  apply (indexedTarget_answers h object hk).keeps
  intro t b' c' hw hrel ht
  exact emitOp_keeps hrel _ (by simpa using ⟨.inl ht, .inl (he.within hw)⟩)

theorem nullTarget_keeps (h : P.rel .body b c) (ht : b.Made (.target t)) :
    P.Keeps .body (Build.nullTarget t) b c :=
  emitOp_keeps h _ (by simpa using .inl ht)

theorem getResults_keeps (h : P.rel .body b c) {ts : List Target} (hts : b.MadeTargets ts) :
    P.Keeps .body (Build.getResults ts) b c :=
  emitOp_keeps h _ (by simpa using fun t ht => .inl (hts t ht))

theorem gotoLabel_keeps (h : P.rel .body b c) (label : String) :
    P.Keeps .body (Build.gotoLabel label) b c :=
  emitOp_keeps h _ (by simpa using .inr ⟨label, rfl⟩)

theorem set_keeps (h : P.rel .body b c) (ht : b.Made (.target t)) (he : b.Made e) :
    P.Keeps .body (Build.emitOp "set" [.target t, e]) b c :=
  emitOp_keeps h _ (by simpa using ⟨.inl ht, .inl he⟩)

theorem assignInt_keeps (h : P.rel .body b c) (ht : b.Made (.target t)) (v : Int64) :
    P.Keeps .body (Build.assignInt t v) b c := by
  unfold Build.assignInt
  split
  · exact nullTarget_keeps h ht
  · exact set_keeps h ht (.constant _)

theorem assignNum_keeps (h : P.rel .body b c) (ht : b.Made (.target t)) (v : Float) :
    P.Keeps .body (Build.assignNum t v) b c := by
  unfold Build.assignNum
  split
  · exact nullTarget_keeps h ht
  · exact set_keeps h ht (.constant _)

theorem assignExpression_keeps (h : P.rel .body b c) (ht : b.Made (.target t)) (he : b.Made e) :
    P.Keeps .body (Build.assignExpression t e) b c := by
  unfold Build.assignExpression
  split
  · exact assignInt_keeps h ht _
  · exact assignNum_keeps h ht _
  · exact set_keeps h ht he

theorem mem_sources {t : Target} {left right e : Expression} (h : e ∈ Build.sources t left right) :
    e = left ∨ e = right := by
  unfold Build.sources at h
  split at h
  · split at h <;> simp_all
  · simpa using h

theorem assignBinary_keeps (h : P.rel .body b c) (ht : b.Made (.target t)) (hl : b.Made left)
    (op : BinaryOp) (hr : b.Made right) :
    P.Keeps .body (Build.assignBinary t left op right) b c := by
  unfold Build.assignBinary
  split
  · split
    · exact set_keeps h ht (.constant _)
    · exact complain_keeps h (by rfl)
  · apply emitReduced_keeps h
    intro e he
    obtain rfl | he := List.mem_cons.1 he
    · exact .inl ht
    · obtain rfl | rfl := mem_sources he
      · exact .inl hl
      · exact .inl hr

theorem assignUnary_keeps (h : P.rel .body b c) (ht : b.Made (.target t)) (op : UnaryOp)
    (he : b.Made e) : P.Keeps .body (Build.assignUnary t op e) b c :=
  emitOp_keeps h _ (by simpa using ⟨.inl ht, .inl he⟩)

theorem augmentedAssign_keeps (h : P.rel .body b c) (ht : b.Made (.target t)) (op : BinaryOp)
    (he : b.Made e) : P.Keeps .body (Build.augmentedAssign t op e) b c :=
  emitReduced_keeps h (by simpa [Instruction.of] using ⟨.inl ht, .inl he⟩)

theorem assignOp_keeps (h : P.rel .body b c) (ht : b.Made (.target t)) (name : String)
    {operands : List Expression} (ho : ∀ e ∈ operands, b.MadeSource e) :
    P.Keeps .body (Build.assignOp t name operands) b c := by
  have ha := Readable.alike h
  apply Keeps.get (by simp only [ha.lookup, ha.lookupConstant, ha.opcodes])
  split
  · split
    next s hs => exact set_keeps h ht (.symbol hs)
    next =>
      split
      · exact set_keeps h ht (.constant _)
      · split
        · exact emitOp_keeps h _ (by simpa using .inl ht)
        · exact complain_keeps h (by rfl)
  · split
    · apply emitReduced_keeps h
      intro e he
      obtain rfl | he := List.mem_cons.1 he
      · exact .inl ht
      · exact ho e he
    · exact complain_keeps h (by rfl)

theorem assignKeyed_keeps (h : P.rel .body b c) (ht : b.Made (.target t)) (name : String)
    {key : Key} (hk : b.Made (.key key)) : P.Keeps .body (Build.assignKeyed t name key) b c := by
  have ha := Readable.alike h
  apply Keeps.get (by simp only [ha.lookup, ha.opcodes])
  split
  · exact emitOp_keeps h _ (by simpa using ⟨.inl ht, .inl hk⟩)
  · apply (indexedTarget_answers h _ hk).keeps
    intro t' b' c' hw hrel ht'
    exact set_keeps hrel (ht.within hw) ht'

/-! Conditions -/

theorem conditionalTarget_keeps (h : P.rel .body b c) (q : Polarity) (nullCheck : Bool)
    (ht : b.Made (.target t)) (label : String) :
    P.Keeps .body (Build.conditionalTarget q nullCheck t label) b c := by
  refine Keeps.andThen (emit_keeps h ?_) fun _ _ hpast => .ok hpast
  simpa [Polarity.variableBranch, Instruction.of] using ⟨.inl ht, .inr ⟨label, rfl⟩⟩

theorem conditionalKnown_keeps (h : P.rel .body b c) (q : Polarity) (value : Bool)
    (label : String) : P.Keeps .body (Build.conditionalKnown q value label) b c := by
  refine Keeps.andThen (emit_keeps h ?_) fun _ _ hpast => .ok hpast
  unfold Polarity.constantBranch
  split
  · simpa [Instruction.of] using .inr ⟨label, rfl⟩
  · simp [Instruction.of]

/-- A constant that is no pmc has a truth value, so its test is decided now. -/
theorem conditionalConstant_keeps (h : P.rel .body b c) (q : Polarity) {k : Constant}
    (hk : k.type ≠ .pmc) (label : String) :
    P.Keeps .body (Build.conditionalConstant q k label) b c := by
  obtain ⟨name, value⟩ := k
  cases value with
  | pmc x => exact absurd rfl hk
  | _ => exact conditionalKnown_keeps h q _ label

theorem conditionalVariable_keeps (h : P.rel .body b c) (q : Polarity) (nullCheck : Bool)
    (name label : String) :
    P.Keeps .body (Build.conditionalVariable q nullCheck name label) b c := by
  have ha := Readable.alike h
  apply Keeps.get (by simp only [ha.lookup, ha.lookupConstant])
  split
  next k hs hk =>
    split
    next hpmc =>
      exact Keeps.andThen (Buildable.emit h (.constantTest q label hs hk hpmc)) fun _ _ hpast =>
        .ok hpast
    next hpmc => exact conditionalConstant_keeps h q hpmc label
  next =>
    apply (symbolTarget_answers h name).keeps
    intro t b' c' _ hrel ht
    exact conditionalTarget_keeps hrel q _ ht label

theorem conditionalRelation_keeps (h : P.rel .body b c) (q : Polarity) (hl : b.Made left)
    (op : RelOp) (hr : b.Made right) (label : String) :
    P.Keeps .body (Build.conditionalRelation q left op right label) b c := by
  have hemit (b' c') (hw : b.Within b') (hrel : P.rel .body b' c') : P.Keeps .body
      (do
        Build.emit (.instruction (q.relationalBranch op left right label))
        pure Condition.runtime)
      b' c' := by
    refine Keeps.andThen (emit_keeps hrel ?_) fun _ _ hpast => .ok hpast
    simpa [Polarity.relationalBranch, Instruction.of] using
      ⟨.inl (hl.within hw), .inl (hr.within hw), .inr ⟨label, rfl⟩⟩
  unfold Build.conditionalRelation
  split
  · split
    · exact conditionalKnown_keeps h q _ label
    · exact (complain_answers h (by rfl)).keeps fun _ b' c' hw hrel _ => hemit b' c' hw hrel
  · exact hemit b c (.refl b) h

/-! Calls and declarations -/

theorem shortInvocation_keeps (h : P.rel .body b c) {i : Invocation} (hi : b.MadeCall i)
    {results : List Target} (hr : b.MadeTargets results) :
    P.Keeps .body (Build.shortInvocation i results) b c :=
  Buildable.emit h (.short hi hr)

theorem tailcall_keeps (h : P.rel .body b c) {i : Invocation} (hi : b.MadeCall i) :
    P.Keeps .body (Build.tailcall i) b c :=
  Buildable.emit h (.tailcall hi)

theorem returnArguments_keeps (h : P.rel .body b c) {as : List Argument}
    (has : b.MadeArguments as) : P.Keeps .body (Build.returnArguments as) b c :=
  Buildable.emit h (.returns has)

theorem yieldArguments_keeps (h : P.rel .body b c) {as : List Argument}
    (has : b.MadeArguments as) : P.Keeps .body (Build.yieldArguments as) b c :=
  Buildable.emit h (.yields has)

theorem declareLocals_keeps (hp : p ≠ .top) (type : ValueType) (names : List (String × Bool))
    (h : P.past p b c) : P.Keeps p (Build.declareLocals type names) b c := by
  induction names generalizing b c with
  | nil => exact .ok h
  | cons n names ih =>
    obtain ⟨name, uniqueReg⟩ := n
    exact Keeps.andThen (Buildable.declareLocal name type uniqueReg hp h) fun _ _ hpast => ih hpast

theorem declareLexical_keeps (h : P.rel .body b c) (name : String) (object : PmcObject) :
    P.Keeps .body (Build.declareLexical name object) b c :=
  (pmcTarget_answers h object (fun _ => by rfl) fun _ => by rfl).keeps fun _ _ _ _ hrel ht =>
    Buildable.addLexical name hrel ht.1 ht.2

end Pairing
end PirFrontend
