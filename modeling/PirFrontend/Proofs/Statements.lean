import PirFrontend.Proofs.Actions
import PirFrontend.Proofs.Calls

/-!
Two runs of the rules for declarations and statements. Each rule reads its line to the end first
and builds then, so it either completes on both sides or breaks on both.
-/
namespace PirFrontend

open PirFrontend.Parser (Place Block)

/-- Reads a value to the end of the line and combines a target with it. -/
def Parser.combine (a : Target) (op : BinaryOp) : Parser Unit := do
  let e ← value
  endOfLine
  Build.augmentedAssign a op e

namespace Pairing

variable {P : Pairing} [P.Buildable] {cr : Prop} {p : Place} {s t : Session} {k : TokenKind}
  {ks : List TokenKind}

/-! Declarations -/

theorem type_reads (h : P.Mid p ks s t) :
    P.Reads cr p Parser.type Parser.type s t (fun _ => []) fun _ _ _ => True := by
  apply (peekKind_zero h).then
  rintro (_ | k) s₁ t₁ - - - hm -
  · exact unexpected_runs hm _ _
  cases k with
  | keyword w =>
    dsimp only
    split
    next type _ =>
      apply (advance_runs hm rfl).bind
      intro u v s₂ t₂ _ _ ht
      exact Runs.pure ⟨rfl, .of_eq ht.still.1, ht.mid.weaken, trivial⟩
    next => exact unexpected_runs hm _ _
  | _ => exact unexpected_runs hm _ _

theorem constantDeclaration_completes (h : P.Mid p (k :: ks) s t) (hk : k.isNewline = false)
    (isGlobal : Bool) : P.Completes cr p (Parser.constantDeclaration isGlobal) s t := by
  apply (advance_runs h hk).bind
  intro _ _ s t _ _ ht
  apply (type_reads ht.mid).bind
  intro type s t _ _ _ hm _
  apply (expectName_reads hm _).bind
  intro name s t _ _ _ hm _
  apply (expectOperator_reads hm .assign).bind
  intro _ s t _ _ _ hm _
  apply (atKind_zero (f := (·.all (·.isNewline))) hm).bind
  rintro (_ | _) s t - - - - ⟨-, k, hk, hm⟩
  · cases k with
    | none => simp at hk
    | some k =>
      apply (advance_runs hm (by simpa using hk.symm)).bind
      intro u v s t _ _ ht
      rw [← (Readable.like ht.tok).kind]
      split
      next => exact unexpectedToken_runs ht.mid ht.tok _ _
      next value _ =>
        cases isGlobal with
        | true =>
          exact completes_build ht.mid (Buildable.declareGlobalConstant name value ht.mid.rel)
        | false => exact completes_build ht.mid (Buildable.declareConstant name value ht.mid.rel)
  · exact unexpected_runs hm _ _

theorem parameter_completes (h : P.Mid .body (k :: ks) s t) (hk : k.isNewline = false) :
    P.Completes cr .body Parser.parameter s t := by
  apply (advance_runs h hk).bind
  intro _ _ s t _ _ ht
  apply (type_reads ht.mid).bind
  intro type s t _ _ _ hm _
  apply (expectName_reads hm _).bind
  intro name s t _ _ _ hm _
  apply (targetMarks_reads hm true).bind
  intro marks s t _ _ _ hm _
  exact completes_build hm (Buildable.addParameter _ _ _ _ _ hm.rel)

theorem localName_reads (h : P.Mid p ks s t) :
    P.Reads cr p Parser.localName Parser.localName s t (fun _ => []) fun _ _ _ => True := by
  apply (expectName_reads h _).then
  intro name s t _ _ _ hm _
  refine (consumeIf_runs hm (·.isFlag .uniqueReg) fun k hk => ?_).bind ?_
  · cases k <;> simp_all [TokenKind.isFlag, TokenKind.isNewline]
  · rintro a a' s' t' - - heaten
    cases heaten with
    | none hst hm _ => exact Runs.pure ⟨rfl, .of_eq hst.1, hm.weaken, trivial⟩
    | token _ _ ht => exact Runs.pure ⟨rfl, .of_eq ht.still.1, ht.mid.weaken, trivial⟩

theorem localDeclaration_completes (hp : p ≠ .top) (h : P.Mid p (k :: ks) s t)
    (hk : k.isNewline = false) : P.Completes cr p Parser.localDeclaration s t := by
  apply (advance_runs h hk).bind
  intro _ _ s t _ _ ht
  apply (type_reads ht.mid).bind
  intro type s t _ _ _ hm _
  apply (separated_reads (T := fun _ _ => True) (fun _ _ _ _ h => h)
    (fun _ _ h => localName_reads h) hm).bind
  intro names s t _ _ _ hm _
  exact completes_build hm (declareLocals_keeps hp type names (Readable.passed hm.rel))

theorem lexicalDeclaration_completes (h : P.Mid .body (k :: ks) s t) (hk : k.isNewline = false) :
    P.Completes cr .body Parser.lexicalDeclaration s t := by
  apply (advance_runs h hk).bind
  intro _ _ s t _ _ ht
  apply (expectString_reads ht.mid).bind
  intro name s t _ _ _ hm _
  apply (expectOperator_reads hm .comma).bind
  intro _ s t _ _ _ hm _
  apply (pmcObject_reads hm).bind
  intro object s t _ _ _ hm _
  exact completes_build hm (declareLexical_keeps hm.rel name object)

/-! Statements -/

/-- A statement of which the first word says what it is. What stands behind that word is read to the
end of the line, and then one action builds from it. -/
theorem headed_completes {α : Type} {read : Parser α} {build : α → Build Unit}
    {ks' : α → List TokenKind} {R : α → Session → Session → Prop} (h : P.Mid .body (k :: ks) s t)
    (hk : k.isNewline = false)
    (hread : ∀ {s t}, P.Mid .body ks s t → P.Reads cr .body read read s t ks' R)
    (hbuild : ∀ {a s t}, P.Mid .body (ks' a) s t → R a s t →
      P.Keeps .body (build a) s.builder t.builder) :
    P.Completes cr .body (do
      let _ ← Parser.advance
      let a ← read
      Parser.endOfLine
      build a) s t := by
  apply (advance_runs h hk).bind
  intro _ _ s t _ _ ht
  apply (hread ht.mid).bind
  intro a s t _ _ _ hm hr
  exact completes_build hm (hbuild hm hr)

theorem gotoStatement_completes (h : P.Mid .body (k :: ks) s t) (hk : k.isNewline = false) :
    P.Completes cr .body Parser.gotoStatement s t :=
  headed_completes (R := fun _ _ _ => True) h hk
    (fun h => (expectName_reads h _).imp fun _ _ _ _ hm _ => ⟨hm, trivial⟩)
    fun hm _ => gotoLabel_keeps hm.rel _

theorem nullStatement_completes (h : P.Mid .body (k :: ks) s t) (hk : k.isNewline = false) :
    P.Completes cr .body Parser.nullStatement s t :=
  headed_completes h hk target_reads fun hm ha => nullTarget_keeps hm.rel ha.1

theorem returnStatement_completes (h : P.Mid .body (k :: ks) s t) (hk : k.isNewline = false) :
    P.Completes cr .body Parser.returnStatement s t :=
  headed_completes h hk arguments_reads fun hm has => returnArguments_keeps hm.rel has

theorem yieldStatement_completes (h : P.Mid .body (k :: ks) s t) (hk : k.isNewline = false) :
    P.Completes cr .body Parser.yieldStatement s t :=
  headed_completes h hk arguments_reads fun hm has => yieldArguments_keeps hm.rel has

theorem tailcallStatement_completes (h : P.Mid .body (k :: ks) s t) (hk : k.isNewline = false) :
    P.Completes cr .body Parser.tailcallStatement s t :=
  headed_completes h hk invocation_reads fun hm hi => tailcall_keeps hm.rel hi

theorem getResultsStatement_completes (h : P.Mid .body (k :: ks) s t) (hk : k.isNewline = false) :
    P.Completes cr .body Parser.getResultsStatement s t :=
  headed_completes h hk resultTargets_reads fun hm hts => getResults_keeps hm.rel hts

theorem callStatement_completes (h : P.Mid .body ks s t) :
    P.Completes cr .body Parser.callStatement s t := by
  apply (invocation_reads h).bind
  intro i s t _ _ _ hm hi
  exact completes_build hm (shortInvocation_keeps hm.rel hi fun t ht => absurd ht List.not_mem_nil)

theorem keyedStore_completes (h : P.Mid .body ks s t) (object : PmcObject) :
    P.Completes cr .body (Parser.keyedStore object) s t := by
  apply (key_reads h).bind
  intro key s t _ _ _ hm hkey
  apply (expectOperator_reads hm .assign).bind
  intro _ s t _ _ hw hm _
  apply (value_reads hm).bind
  intro e s t _ _ hw' hm he
  exact completes_build hm (keyedStore_keeps hm.rel object (hkey.within (hw.trans hw')) he)

theorem combine_completes (h : P.Mid .body ks s t) {a : Target}
    (ha : s.builder.Made (.target a)) (op : BinaryOp) :
    P.Completes cr .body (Parser.combine a op) s t := by
  apply (value_reads h).bind
  intro e s' t' _ _ hw hm he
  exact completes_build hm (augmentedAssign_keeps hm.rel (ha.within hw) op he)

theorem augmented_completes (h : P.Mid .body (k :: ks) s t) (hk : k.isNewline = false)
    {a : Target} (ha : s.builder.Made (.target a)) :
    P.Completes cr .body (Parser.augmented a) s t := by
  apply (advance_runs h hk).bind
  intro u v s t _ _ ht
  rw [← (Readable.like ht.tok).kind]
  split
  next o _ =>
    cases BinaryOp.ofAugmented? o with
    | none => exact unexpectedToken_runs ht.mid ht.tok _ _
    | some op => exact combine_completes ht.mid (ha.within (.of_eq ht.still.1)) op
  next => exact unexpectedToken_runs ht.mid ht.tok _ _

theorem resultStatement_completes (h : P.Mid .body ks s t) :
    P.Completes cr .body Parser.resultStatement s t := by
  apply (resultTargets_reads h).bind
  intro results s t _ _ _ hm hr
  apply (expectOperator_reads hm .assign).bind
  intro _ s t _ _ hw hm _
  apply (invocation_reads hm).bind
  intro i s t _ _ hw' hm hi
  exact completes_build hm (shortInvocation_keeps hm.rel hi (hr.within (hw.trans hw')))

theorem foldl_pushOperand {b : Builder} {i : Instruction} (h : b.pendingInstruction = some i)
    (operands : List Expression) : operands.foldl Builder.pushOperand b =
      { b with pendingInstruction := some { i with operands := i.operands ++ operands } } := by
  induction operands generalizing b i with
  | nil =>
    rw [List.foldl_nil, List.append_nil, ← h]
  | cons e operands ih =>
    rw [List.foldl_cons, ih (i := i.push e) (by simp [Builder.pushOperand, h])]
    simp [Builder.pushOperand, Instruction.push]

/-- An opcode with its operands, which are collected on the builder. -/
theorem opStatement_completes (h : P.Mid .body (k :: ks) s t) (hk : k.isNewline = false) :
    P.Completes cr .body Parser.opStatement s t := by
  apply (advanceText_reads h hk).bind
  intro opcode s t _ _ _ hm _
  apply (runs_change (f := (·.beginInstruction opcode))).bind
  rintro _ _ _ _ - - ⟨rfl, rfl⟩
  have hm' : P.Mid .body ks { s with builder := s.builder.beginInstruction opcode }
      { t with builder := t.builder.beginInstruction opcode } :=
    ⟨Buildable.instruction _ hm.rel, hm.steps, hm.ahead⟩
  apply (opArguments_reads hm').bind
  intro operands s₁ t₁ _ _ hw hm₁ ho
  apply (runs_change (f := fun b => operands.foldl Builder.pushOperand b)).bind
  rintro _ _ _ _ - - ⟨rfl, rfl⟩
  -- The instruction that was begun is still the one that waits for its operands.
  have hpend : s₁.builder.pendingInstruction = some (.of opcode []) := hw.pendingInstruction
  have hpend' : t₁.builder.pendingInstruction = some (.of opcode []) :=
    (Readable.alike hm₁.rel).pendingInstruction.symm.trans hpend
  rw [foldl_pushOperand hpend, foldl_pushOperand hpend']
  have hrel := Buildable.instruction
    (some { Instruction.of opcode [] with operands := [] ++ operands }) hm₁.rel
  have hm₂ : P.Mid .body [] ⟨s₁.tokens, _⟩ ⟨t₁.tokens, _⟩ := ⟨hrel, hm₁.steps, hm₁.ahead⟩
  refine completes_build hm₂ (finishInstruction_keeps hrel fun i hi e he => ?_)
  obtain rfl := Option.some.inj hi
  exact Builder.MadeSource.mono (b := s₁.builder) (fun _ => rfl) id (ho e he)

theorem directiveStatement_completes (d : Directive) (h : P.Mid .body (.directive d :: ks) s t) :
    P.Completes cr .body (Parser.directiveStatement d) s t := by
  unfold Parser.directiveStatement
  split
  · exact localDeclaration_completes nofun h rfl
  · exact lexicalDeclaration_completes h rfl
  · exact constantDeclaration_completes h rfl false
  · exact constantDeclaration_completes h rfl true
  · exact returnStatement_completes h rfl
  · exact yieldStatement_completes h rfl
  · exact tailcallStatement_completes h rfl
  · exact getResultsStatement_completes h rfl
  · exact unexpected_runs h _ _

end Pairing
end PirFrontend
