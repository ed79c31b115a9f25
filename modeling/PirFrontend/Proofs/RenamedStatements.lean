import PirFrontend.Grammar.Statement
import PirFrontend.Proofs.RenamedCalls

/-!
Statements under other names. What a statement begins with decides by which rule it is read, and a
name begins the same statements as the name of a type.
-/
namespace PirFrontend

open HasClean
open PirFrontend.Parser (Block)

theorem Keyword.IsType.not_isKeyword {k w : Keyword} (hk : k.IsType) (hw : ¬w.IsType) :
    (TokenKind.keyword k).isKeyword w = false := by
  simp only [TokenKind.isKeyword, beq_eq_false_iff_ne]
  rintro rfl
  exact hw hk

namespace Respelling

variable {ρ : Respelling} {K : List TokenKind → Prop}

/-! Assignments -/

theorem infixOp?_admits {t u : Token} (h : t.Admits u) :
    Parser.infixOp? (some u.kind) = Parser.infixOp? (some t.kind) :=
  h.congr fun _ _ => rfl

theorem binaryAssignment_reads (t : Target) :
    ρ.Reads K (Parser.binaryAssignment t) (Parser.binaryAssignment (t.rename ρ.name)) id := by
  refine value_reads.bind fun left => advance.bindRel fun u v huv => ?_
  rw [infixOp?_admits huv]
  cases hop : Parser.infixOp? (some u.kind) with
  | none => exact .raised _ _
  | some op =>
    have hdeclares : u.kind.declares = false := by
      revert hop
      cases u.kind <;> first | exact fun _ => rfl | nofun
    rw [hdeclares]
    exact value_reads.bind fun right => endOfLine_reads.bind fun _ =>
      build (assignBinary t left op right)

theorem callAssignment_reads (t : Target) :
    ρ.Reads K (Parser.callAssignment t) (Parser.callAssignment (t.rename ρ.name)) id :=
  invocation_reads.bind fun i => endOfLine_reads.bind fun _ => build (shortInvocation i [t])

theorem opAssignment_reads (t : Target) (hK : ∀ k L, K (k :: L) → k.isWord = true) :
    ρ.Reads K (Parser.opAssignment t) (Parser.opAssignment (t.rename ρ.name)) id := by
  refine (advanceText_spared (J := Anything) fun k L hL => ⟨hK k L hL, trivial⟩).bind fun name => ?_
  have hop (operands : List Expression) :
      Carries (fun s t => ρ.At false Anything s t ∧ Spared ρ.hidden name (ρ.name name))
        (liftM (Build.assignOp t name operands) : Parser Unit)
        (liftM (Build.assignOp (t.rename ρ.name) (ρ.name name)
          (operands.map (Expression.rename ρ.name)))) (Maps id) fun _ => ρ.At false Anything :=
    .given (clean_of_build (clean_of_adds (Build.assignOp_adds t name operands))) fun hname =>
      build (assignOp t operands hname)
  have hkeyed (k : Key) :
      Carries (fun s t => ρ.At false Anything s t ∧ Spared ρ.hidden name (ρ.name name))
        (liftM (Build.assignKeyed t name k) : Parser Unit)
        (liftM (Build.assignKeyed (t.rename ρ.name) (ρ.name name) (k.rename ρ.name))) (Maps id)
        fun _ => ρ.At false Anything :=
    .given (clean_of_build (clean_of_adds (Build.assignKeyed_adds t name k))) fun hname =>
      build (assignKeyed t k hname)
  refine ((atOperator_reads (by decide) .leftBracket).frame _).bind fun b => ?_
  cases b with
  | false =>
    exact (opArguments_reads.frame _).bind fun operands => (endOfLine_reads.frame _).bind fun _ =>
      hop operands
  | true =>
    refine (key_reads.frame _).bind fun k => ((eatOperator_reads .comma).frame _).bind fun b => ?_
    cases b with
    | false => exact (endOfLine_reads.frame _).bind fun _ => hkeyed k
    | true =>
      refine (opArguments_reads.frame _).bind fun operands => (endOfLine_reads.frame _).bind
        fun _ => ?_
      simpa using hop (.key k :: operands)

theorem literalAssignment_reads (t : Target) (kind : TokenKind)
    (hK : ∀ k L, K (k :: L) → k.declares = false) :
    ρ.Reads K (Parser.literalAssignment t kind)
      (Parser.literalAssignment (t.rename ρ.name) kind) id := by
  refine skipped hK <| endOfLine_reads.bind fun _ => ?_
  cases kind with
  | int v => exact build (assignInt t v)
  | num v => exact build (assignNum t v)
  | string s => exact build (assignString t s)
  | _ => exact .pure rfl fun _ _ => id

theorem unaryAssignment_reads (t : Target) (op : Operator)
    (hK : ∀ k L, K (k :: L) → k.declares = false) :
    ρ.Reads K (Parser.unaryAssignment t op) (Parser.unaryAssignment (t.rename ρ.name) op) id := by
  unfold Parser.unaryAssignment
  cases UnaryOp.ofOperator? op with
  | none => exact unexpected _
  | some op =>
    exact skipped hK <| value_reads.bind fun e => endOfLine_reads.bind fun _ =>
      build (assignUnary t op e)

theorem literalOrBinary_reads (t : Target) (kind : TokenKind) (next : Option TokenKind)
    (hK : ∀ k L, K (k :: L) → k.declares = false) :
    ρ.Reads K (Parser.literalOrBinary t kind next)
      (Parser.literalOrBinary (t.rename ρ.name) kind next) id :=
  .ite (fun _ => binaryAssignment_reads t) fun _ => literalAssignment_reads t kind hK

theorem atCall_reads (next : Option TokenKind) :
    Carries (ρ.At false K) (Parser.atCall next) (Parser.atCall next) (Maps id)
      fun _ => ρ.At false K :=
  .ite (fun _ => .pure rfl fun _ _ => id) fun _ => atMethodCall_reads

theorem assignment_reads (t : Target) :
    ρ.Reads K (Parser.assignment t) (Parser.assignment (t.rename ρ.name)) id := by
  refine peekKind_bind (by decide) (fun _ _ => rfl) fun k => ?_
  obtain _ | k := k
  · exact unexpected _
  refine peekKind_still (by decide) (fun _ _ => by cases k <;> rfl) fun next => ?_
  cases k with
  | operator op => exact unaryAssignment_reads t op (declares_ahead rfl)
  | string s =>
    exact .ite (fun _ => callAssignment_reads t) fun _ =>
      literalOrBinary_reads t _ next (declares_ahead rfl)
  | int v | num v => exact literalOrBinary_reads t _ next (declares_ahead rfl)
  | register cls number =>
    refine (atCall_reads next).bind fun b => .ite (fun _ => callAssignment_reads t) fun _ =>
      .ite (fun _ => binaryAssignment_reads t) fun _ => ?_
    exact value_reads.bind fun e => endOfLine_reads.bind fun _ => build (assignExpression t e)
  | identifier | keyword =>
    refine (atCall_reads next).bind fun b => .ite (fun _ => callAssignment_reads t) fun _ =>
      .ite (fun _ => binaryAssignment_reads t) fun _ => ?_
    exact opAssignment_reads t fun k L hL => (word_ahead rfl k L hL).1
  | _ => exact unexpected _

theorem augmented_reads (t : Target) :
    ρ.Reads K (Parser.augmented t) (Parser.augmented (t.rename ρ.name)) id := by
  refine advance.bindRel fun u v huv => ?_
  -- What the token stands for is asked only if it is an operator.
  obtain h | ⟨h, k, -, h'⟩ := huv
  · have hkind : v.kind = u.kind := Option.some.inj h
    dsimp only
    rw [hkind]
    cases hu : u.kind with
    | operator op =>
      dsimp only
      cases BinaryOp.ofAugmented? op with
      | none => exact .raised _ _
      | some op =>
        exact value_reads.bind fun e => endOfLine_reads.bind fun _ => build (augmentedAssign t op e)
    | _ => exact .raised _ _
  · dsimp only
    rw [Option.some.inj h, Option.some.inj h']
    exact .raised _ _

theorem keyedStore_reads (object : PmcObject) :
    ρ.Reads K (Parser.keyedStore object) (Parser.keyedStore (object.rename ρ.name)) id :=
  key_reads.bind fun k => (expectOperator_reads .assign).bind fun _ => value_reads.bind fun e =>
    endOfLine_reads.bind fun _ => build (keyedStore object k e)

/-! Conditions -/

theorem branchLabel_reads : ρ.Reads K Parser.branchLabel Parser.branchLabel ρ.name := by
  have hjoins (k : Keyword) (hk : k.IsType) :
      Parser.joinsLabel (.keyword k) = Parser.joinsLabel .identifier := by
    simp only [Parser.joinsLabel, hk.not_isKeyword (w := .goto) (by decide)]
    rfl
  have hconsume := consumeIf (ρ := ρ) (K := K) (J := Anything) Parser.joinsLabel hjoins
    (fun k hk => by cases k <;> first | rfl | cases hk) fun _ _ _ _ => trivial
  refine hconsume.bindRel fun a b hab => ?_
  cases a with
  | none => exact unexpected _
  | some u =>
    cases b with
    | none => cases hab
    | some v =>
      exact (expectName_reads _).bind fun label => endOfLine_reads.bind fun _ =>
        .pure rfl fun _ _ => id

theorem gotoLabel_reads : ρ.Reads K Parser.gotoLabel Parser.gotoLabel ρ.name := by
  refine peekKind_still (by decide) (fun k hk => ?_) fun k => ?_
  · simp only [Option.any_some, hk.not_isKeyword (w := .goto) (by decide)]
    rfl
  · exact .ite (fun _ => branchLabel_reads) fun _ => unexpected _

/-- Both of two questions. -/
theorem andM_reads {x y : Parser Bool}
    (hx : Carries (ρ.At false K) x x (Maps id) fun _ => ρ.At false K)
    (hy : Carries (ρ.At false K) y y (Maps id) fun _ => ρ.At false K) :
    Carries (ρ.At false K) (x <&&> y) (x <&&> y) (Maps id) fun _ => ρ.At false K :=
  hx.bind fun b => by
    cases b with
    | true => exact hy
    | false => exact .pure rfl fun _ _ => id

theorem nullCondition_reads (p : Polarity) (next : Option TokenKind)
    (hK : ∀ k L, K (k :: L) → k.declares = false) :
    ρ.Reads K (Parser.nullCondition p next) (Parser.nullCondition p next) id := by
  have hquestion : Carries (ρ.At false K)
      (pure (next.any Parser.joinsLabel) <&&> Parser.atName 2 <&&> Parser.atEndOfLine 3)
      (pure (next.any Parser.joinsLabel) <&&> Parser.atName 2 <&&> Parser.atEndOfLine 3) (Maps id)
      fun _ => ρ.At false K :=
    andM_reads (.pure rfl fun _ _ => id) <| andM_reads
      ((atName_known (by decide)).after fun _ _ _ h => h.mono fun _ hL => hL.1)
      (atEndOfLine_reads (by decide))
  refine hquestion.bind fun isVariable => skipped hK ?_
  cases isVariable with
  | true =>
    refine branchLabel_reads.bind fun label => ?_
    have hnull := conditionalVariable (ρ := ρ) p false "null" label
    rw [ρ.name_null] at hnull
    exact (build hnull).bind fun _ => .pure rfl fun _ _ => id
  | false =>
    exact target_reads.bind fun t => gotoLabel_reads.bind fun label =>
      (build (conditionalTarget p true t label)).bind fun _ => .pure rfl fun _ _ => id

theorem relationCondition_reads (p : Polarity) (op : RelOp) {next : Option TokenKind}
    (hop : Parser.relation? next = some op) (hK : ∀ L, K L → L[1]? = next) :
    ρ.Reads K (Parser.relationCondition p op) (Parser.relationCondition p op) id := by
  obtain ⟨o, rfl⟩ : ∃ o, next = some (.operator o) := by
    obtain _ | k := next
    · cases hop
    · cases k <;> first | exact ⟨_, rfl⟩ | cases hop
  have hbracket : o ≠ .leftBracket := by
    rintro rfl
    cases hop
  refine (value_before hbracket hK).bind fun left => skipped ?_ ?_
  · intro k L hk
    obtain rfl : k = .operator o := Option.some.inj hk
    rfl
  · exact value_reads.bind fun right => gotoLabel_reads.bind fun label =>
      (build (conditionalRelation p left op right label)).bind fun _ => .pure rfl fun _ _ => id

theorem valueCondition_reads (p : Polarity) (kind : TokenKind)
    (hK : ∀ k L, K (k :: L) → k = kind) :
    ρ.Reads K (Parser.valueCondition p kind) (Parser.valueCondition p kind) id := by
  have hconstant {c : Constant} (hc : Parser.literal? kind = some c) : ρ.Reads K
      (do
        let _ ← Parser.advance
        let label ← Parser.branchLabel
        let _ ← Build.conditionalConstant p c label : Parser Unit)
      (do
        let _ ← Parser.advance
        let label ← Parser.branchLabel
        let _ ← Build.conditionalConstant p c label) id := by
    refine skipped (fun k L hL => ?_) <| branchLabel_reads.bind fun label => ?_
    · rw [hK k L hL]
      exact declares_of_literal (by rw [hc]; rfl)
    · have hbranch := conditionalConstant (ρ := ρ) p c label
      rw [rename_literal hc] at hbranch
      exact (build hbranch).bind fun _ => .pure rfl fun _ _ => id
  cases kind with
  | register cls number =>
    exact target_reads.bind fun t => branchLabel_reads.bind fun label =>
      (build (conditionalTarget p false t label)).bind fun _ => .pure rfl fun _ _ => id
  | identifier | keyword =>
    refine (advanceText (J := Anything) fun k L hL => ⟨by rw [hK k L hL]; rfl, trivial⟩).bind
      fun name => branchLabel_reads.bind fun label => ?_
    exact (build (conditionalVariable p false name label)).bind fun _ => .pure rfl fun _ _ => id
  | int | num | string => exact hconstant rfl
  | _ => exact unexpected _

theorem conditional_reads (p : Polarity) (hK : ∀ k L, K (k :: L) → k.declares = false) :
    ρ.Reads K (Parser.conditional p) (Parser.conditional p) id := by
  refine skipped hK <| peekKind_bind (by decide) (fun k hk => ?_) fun k => ?_
  · simp only [hk.not_isKeyword (w := .null) (by decide)]
    rfl
  obtain _ | k := k
  · exact unexpected _
  refine peekKind_bind (by decide) (fun w hw => ?_) fun next => ?_
  · cases w with
    | int | num | pmc | string => cases k <;> rfl
    | ifWord | unlessWord | null | goto => exact absurd hw (by decide)
  cases hop : Parser.relation? next with
  | some op => exact relationCondition_reads p op hop fun L hL => hL.2
  | none =>
    refine .ite (fun hnull => nullCondition_reads p next fun k' L hL => ?_) fun _ =>
      valueCondition_reads p k fun k' L hL => Option.some.inj hL.1.2
    obtain rfl : k' = k := Option.some.inj hL.1.2
    cases k' <;> first | rfl | cases hnull

/-! Blocks -/

theorem Builders.beginning {b c : Builder} (h : ρ.Builders b c) (block : Block) :
    ρ.Builders (block.beginning b) (block.beginning c) := by
  cases block with
  | call | returns | yields => exact { h with pendingCall := rfl }

theorem blockHeader_reads (block : Block) (hK : ∀ k L, K (k :: L) → k.declares = false) :
    ρ.Reads K (Parser.blockHeader block) (Parser.blockHeader block) id :=
  skipped hK <| endOfLine_reads.bind fun _ =>
    change (fun b => by cases block <;> rfl) fun _ _ h => h.beginning block

theorem callDirective_reads (d : Directive) (hK : ∀ k L, K (k :: L) → k = .directive d) :
    ρ.Reads K (Parser.callDirective d) (Parser.callDirective d) id := by
  cases d with
  | call => exact calledSub_reads (declares_directive hK rfl)
  | nciCall => exact calledNative_reads (declares_directive hK rfl)
  | invocant => exact invocant_reads (declares_directive hK rfl)
  | methCall => exact calledMethod_reads (declares_directive hK rfl)
  | getResult => exact result_reads (declares_directive hK rfl)
  | localDecl => exact localDeclaration_reads (declares_directive hK rfl)
  | _ => exact unexpected _

/-- What is malformed leaves no clean state, and so nothing is asked of what follows. -/
theorem malformed {ε α : Type} [OfFatal ε] (message : String) {f g : Unit → Act ε α}
    {P : Session → Session → Prop} {R : α → α → Prop} {Q : α → Session → Session → Prop}
    (hf : ∀ {s s' a}, (f ()).run s = (.ok a, s') → Clean s' → Clean s) :
    Carries P ((liftM (Build.malformed message) : Act ε Unit) >>= f)
      ((liftM (Build.malformed message) : Act ε Unit) >>= g) R Q := by
  refine .spoiled fun s a s' hrun hclean => ?_
  obtain ⟨_, s₁, hmalformed, hrest⟩ := exists_of_run_bind hrun
  exact not_clean_of_report (run_build_ok hmalformed).1 (hf hrest hclean).1

theorem blockDirective_reads (block : Block) (d : Directive)
    (hK : ∀ k L, K (k :: L) → k = .directive d) :
    ρ.Reads K (Parser.blockDirective block d) (Parser.blockDirective block d) id := by
  refine .ite (fun hd => ?_) fun _ => .ite (fun _ => ?_) fun _ => .ite (fun hd => ?_) fun _ =>
    .ite (fun _ => ?_) fun _ => unexpected _
  · refine skipped (declares_directive hK ?_) <| endOfLine_reads.bind fun _ =>
      (build endCall).bind fun _ => .pure rfl fun _ _ => id
    rw [hd]
    cases block <;> rfl
  · refine malformed _ fun hrun hclean => ?_
    cases hrun
    exact hclean
  · refine (passedArgument_reads (declares_directive hK ?_)).bind fun _ => .pure rfl fun _ _ => id
    rw [hd]
    cases block <;> rfl
  · exact (callDirective_reads d hK).bind fun _ => .pure rfl fun _ _ => id

/-! Statements -/

theorem callStatement_reads : ρ.Reads K Parser.callStatement Parser.callStatement id :=
  invocation_reads.bind fun i => endOfLine_reads.bind fun _ => build (shortInvocation i [])

theorem opStatement_reads (hK : ∀ k L, K (k :: L) → k.isWord = true) :
    ρ.Reads K Parser.opStatement Parser.opStatement id := by
  refine (advanceWord (J := Anything) fun k L hL => ⟨hK k L hL, trivial⟩).bindRel
    fun a b hab => ?_
  have hbegin : Carries (ρ.At false Anything) (Act.change (·.beginInstruction a) : Parser Unit)
      (Act.change (·.beginInstruction b)) (Maps id) fun _ => ρ.At false Anything :=
    change (fun _ => rfl) fun _ _ h => h.beginInstruction hab
  refine hbegin.bind fun _ => opArguments_reads.bind fun operands => ?_
  have hpush : Carries (ρ.At false Anything)
      (Act.change fun b => operands.foldl Builder.pushOperand b : Parser Unit)
      (Act.change fun b => (operands.map (Expression.rename ρ.name)).foldl Builder.pushOperand b)
      (Maps id) fun _ => ρ.At false Anything :=
    change (fun b => (Build.pushOperands_same operands b).diagnostics)
      fun _ _ h => h.pushOperands operands
  exact hpush.bind fun _ => endOfLine_reads.bind fun _ => build finishInstruction

section

variable (hK : ∀ k L, K (k :: L) → k.declares = false)
include hK

theorem gotoStatement_reads : ρ.Reads K Parser.gotoStatement Parser.gotoStatement id :=
  skipped hK <| (expectName_reads _).bind fun label => endOfLine_reads.bind fun _ =>
    build (gotoLabel label)

theorem nullStatement_reads : ρ.Reads K Parser.nullStatement Parser.nullStatement id :=
  skipped hK <| target_reads.bind fun t => endOfLine_reads.bind fun _ => build (nullTarget t)

theorem returnStatement_reads : ρ.Reads K Parser.returnStatement Parser.returnStatement id :=
  skipped hK <| arguments_reads.bind fun as => endOfLine_reads.bind fun _ =>
    build (returnArguments as)

theorem yieldStatement_reads : ρ.Reads K Parser.yieldStatement Parser.yieldStatement id :=
  skipped hK <| arguments_reads.bind fun as => endOfLine_reads.bind fun _ =>
    build (yieldArguments as)

theorem tailcallStatement_reads :
    ρ.Reads K Parser.tailcallStatement Parser.tailcallStatement id :=
  skipped hK <| invocation_reads.bind fun i => endOfLine_reads.bind fun _ => build (tailcall i)

theorem getResultsStatement_reads :
    ρ.Reads K Parser.getResultsStatement Parser.getResultsStatement id :=
  skipped hK <| resultTargets_reads.bind fun ts => endOfLine_reads.bind fun _ =>
    build (getResults ts)

theorem strayRegister_reads : ρ.Reads K Parser.strayRegister Parser.strayRegister id :=
  skipped hK <| unexpected _

end

/-- A name, the operator behind it, and what follows. -/
theorem assigned {f g : Target → Parser Unit} (hK : ∀ k L, K (k :: L) → k.isWord = true)
    {J : List TokenKind → Prop} (hJ : ∀ k L, K (k :: L) → J L)
    (h : ∀ t, Carries (ρ.At false J) (f t) (g (t.rename ρ.name)) (Maps id)
      fun _ => ρ.At false Anything) :
    ρ.Reads K (do let name ← Parser.advanceText; let t ← Build.symbolTarget name; f t)
      (do let name ← Parser.advanceText; let t ← Build.symbolTarget name; g t) id :=
  (advanceText fun k L hL => ⟨hK k L hL, hJ k L hL⟩).bind fun name =>
    (build (symbolTarget name)).bind h

theorem declares_assign (k : TokenKind) (L : List TokenKind)
    (h : (k :: L)[0]? = some (.operator .assign)) : k.declares = false := by
  obtain rfl := Option.some.inj h
  rfl

theorem nameStatement_reads (hK : ∀ k L, K (k :: L) → k.isWord = true) :
    ρ.Reads K Parser.nameStatement Parser.nameStatement id := by
  have hword (next : Option TokenKind) (k : TokenKind) (L : List TokenKind)
      (h : K (k :: L) ∧ (k :: L)[1]? = next) : k.isWord = true := hK k L h.1
  refine peekKind_bind (by decide) (fun _ _ => rfl) fun next => ?_
  split
  · exact assigned (J := fun L => L[0]? = some (.operator .assign)) (hword _)
      (fun k L hL => hL.2) fun t => skipped declares_assign (assignment_reads t)
  · exact callStatement_reads
  · exact callStatement_reads
  · exact (advanceText (J := Anything) fun k L hL => ⟨hword _ k L hL, trivial⟩).bind fun name =>
      keyedStore_reads (.named name)
  · split
    · exact assigned (hword _) (fun _ _ _ => trivial) fun t => augmented_reads t
    · exact opStatement_reads (hword _)
  · exact opStatement_reads (hword _)

theorem registerStatement_reads (cls : RegisterClass) (number : Nat)
    (hK : ∀ k L, K (k :: L) → k.declares = false) :
    ρ.Reads K (Parser.registerStatement cls number) (Parser.registerStatement cls number) id := by
  have hdeclares (next : Option TokenKind) (k : TokenKind) (L : List TokenKind)
      (h : K (k :: L) ∧ (k :: L)[1]? = next) : k.declares = false := hK k L h.1
  refine peekKind_bind (by decide) (fun _ _ => rfl) fun next => ?_
  split
  · exact (target_known (J := fun L => L[0]? = some (.operator .assign))
      fun k L hL => hL.2).bind fun t => skipped declares_assign (assignment_reads t)
  · exact callStatement_reads
  · exact callStatement_reads
  · split
    · exact skipped (hdeclares _) (keyedStore_reads (.register number))
    · exact strayRegister_reads (hdeclares _)
  · split
    · exact target_reads.bind fun t => augmented_reads t
    · exact strayRegister_reads (hdeclares _)
  · exact strayRegister_reads (hdeclares _)

theorem resultStatement_reads :
    ρ.Reads K Parser.resultStatement Parser.resultStatement id :=
  resultTargets_reads.bind fun ts => (expectOperator_reads .assign).bind fun _ =>
    invocation_reads.bind fun i => endOfLine_reads.bind fun _ => build (shortInvocation i ts)

theorem directiveStatement_reads (d : Directive) (hK : ∀ k L, K (k :: L) → k = .directive d) :
    ρ.Reads K (Parser.directiveStatement d) (Parser.directiveStatement d) id := by
  cases d with
  | localDecl => exact localDeclaration_reads (declares_directive hK rfl)
  | lex => exact lexicalDeclaration_reads (declares_directive hK rfl)
  | const => exact constantDeclaration_reads false (declares_directive hK rfl)
  | globalConst => exact constantDeclaration_reads true (declares_directive hK rfl)
  | returnValues => exact returnStatement_reads (declares_directive hK rfl)
  | yieldValues => exact yieldStatement_reads (declares_directive hK rfl)
  | tailcall => exact tailcallStatement_reads (declares_directive hK rfl)
  | getResults => exact getResultsStatement_reads (declares_directive hK rfl)
  | _ => exact unexpected _

theorem statement_reads : ρ.Reads K Parser.statement Parser.statement id := by
  have hname {k : TokenKind} (hk : k.isWord = true) :
      ρ.Reads (fun L => K L ∧ L[0]? = some k) Parser.nameStatement Parser.nameStatement id :=
    nameStatement_reads fun k' L hL => (word_ahead hk k' L hL).1
  refine peekKind_bind (by decide) (fun k hk => ?_) fun k => ?_
  · cases k with
    | int | num | pmc | string => rfl
    | ifWord | unlessWord | null | goto => exact absurd hk (by decide)
  obtain _ | k := k
  · exact unexpected _
  cases k with
  | keyword k =>
    cases k with
    | ifWord => exact conditional_reads .positive (declares_ahead rfl)
    | unlessWord => exact conditional_reads .negative (declares_ahead rfl)
    | goto =>
      refine (atAssignment_reads (by decide)).bind fun b => ?_
      cases b with
      | true => exact hname rfl
      | false => exact gotoStatement_reads (declares_ahead rfl)
    | null =>
      refine (atAssignment_reads (by decide)).bind fun b => ?_
      cases b with
      | true => exact hname rfl
      | false => exact nullStatement_reads (declares_ahead rfl)
    | int | num | pmc | string => exact hname rfl
  | identifier => exact hname rfl
  | register cls number => exact registerStatement_reads cls number (declares_ahead rfl)
  | string s => exact callStatement_reads
  | operator op =>
    cases op with
    | leftParen => exact resultStatement_reads
    | _ => exact unexpected _
  | directive d => exact directiveStatement_reads d fun k L hL => Option.some.inj hL.2
  | _ => exact unexpected _

theorem statementOrBlock_reads :
    ρ.Reads K Parser.statementOrBlock Parser.statementOrBlock id := by
  have hstatement {K : List TokenKind → Prop} :
      ρ.Reads K (do Parser.statement; pure none : Parser (Option Block))
        (do Parser.statement; pure none) id :=
    statement_reads.bind fun _ => .pure rfl fun _ _ => id
  refine peekKind_bind (by decide) (fun _ _ => rfl) fun k => ?_
  obtain _ | k := k
  · exact hstatement
  cases k with
  | directive d =>
    dsimp only
    cases hblock : Block.begunBy? d with
    | none => exact hstatement
    | some block =>
      refine (blockHeader_reads block (declares_ahead ?_)).bind fun _ => .pure rfl fun _ _ => id
      cases d <;> first | rfl | cases hblock
  | _ => exact hstatement

theorem labelledStatement_reads :
    ρ.Reads K Parser.labelledStatement Parser.labelledStatement id := by
  refine peekKind_bind (by decide) (fun _ _ => rfl) fun k => ?_
  obtain _ | k := k
  · exact statementOrBlock_reads
  cases k with
  | label =>
    refine (advanceText (word_ahead rfl)).bind fun label => (build (setLabel label)).bind fun _ =>
      (atEndOfLine_reads (by decide)).bind fun b => ?_
    cases b with
    | true => exact endOfLine_reads.bind fun _ => .pure rfl fun _ _ => id
    | false => exact statementOrBlock_reads
  | _ => exact statementOrBlock_reads

end Respelling
end PirFrontend
