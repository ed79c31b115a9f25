import PirFrontend.Proofs.Statements

/-!
Rules that look across the end of their line. Where the next lines of two texts differ, two runs
may see different tokens there, but both have to break: nothing that is seen behind a newline
makes the rule fit. So each run can be followed alone.
-/
namespace PirFrontend

open PirFrontend.Parser (Place Block)

/-- A builder to which problems were reported, none of them one too many. -/
inductive Builder.Reports (b : Builder) : Builder → Prop
  | refl : b.Reports b
  | report {b' b'' : Builder} (kind : DiagnosticKind) (message : String) : b.Reports b' →
      (Build.report kind message).run b' = (.ok (), b'') → b.Reports b''

namespace Pairing

variable {α : Type} {P : Pairing} {cr : Prop} {p : Place} {s t : Session} {k : TokenKind}
  {ks : List TokenKind}

/-- One run alone, on a line that leaves `L` behind it, while it only reports. -/
def solo (b : Builder) (L : List Step) : Pairing where
  tok := Eq
  err := Eq
  start M N := M = L ∧ N = L
  askew _ _ := False
  rel _ c d := c = d ∧ b.Reports c
  past _ _ _ := True
  stopped _ _ _ _ := False
  aside f c := ∃ b' kind message, b.Reports b' ∧ (Build.report kind message).run b' = (.error f, c)
  stray _ _ _ := True

instance (b : Builder) (L : List Step) : (solo b L).Readable where
  like h := by subst h; exact ⟨rfl, rfl⟩
  unexpected _ h := by subst h; rfl
  endOfInput _ := rfl
  alike h := by obtain ⟨rfl, -⟩ := h; exact ⟨rfl, rfl, rfl, rfl, rfl, rfl⟩
  passed _ := trivial
  report {p c d kind} message _ h := by
    obtain ⟨rfl, hr⟩ := h
    cases hrun : (Build.report kind message).run c with
    | mk r c' =>
      cases r with
      | ok => exact .ok ⟨rfl, hr.report kind message hrun⟩
      | error f => exact .left ⟨c, kind, message, hr, hrun⟩

/-- How a run ends that cannot succeed. -/
theorem Runs.of_solo {b : Builder} {L : List Step} {x : Parser α}
    (h : (solo b L).Runs False p x x s s fun _ _ _ _ => False) :
    (∃ e s', x.run s = (.error (.broken e), s') ∧ s.tokens.Follows s'.tokens ∧
      b.Reports s'.builder ∧ afterLine s'.steps = L) ∨
    ∃ f s', x.run s = (.error (.fatal f), s') ∧ (solo b L).aside f s'.builder := by
  unfold Runs at h
  generalize x.run s = r at h
  cases h with
  | ok _ _ h => exact h.elim
  | broken hs _ _ hm =>
    exact .inl ⟨_, _, rfl, hs, hm.rel.2, (hm.steps.afterLine fun h => h ▸ rfl).1⟩
  | crossed h => exact h.elim
  | stopped h => exact h.elim
  | left h => exact .inr ⟨_, _, rfl, h⟩
  | right h => exact .inr ⟨_, _, rfl, h⟩

variable [P.Buildable]

theorem reports_astray {L M : List Step} {b b' c c' : Builder} (ha : P.askew L M)
    (h : P.stray p b c) (hb : b.Reports b') (hc : c.Reports c') : P.stray p b' c' := by
  have hleft : P.stray p b' c := by
    induction hb with
    | refl => exact h
    | report kind message _ hrun ih => simpa [hrun] using Buildable.astray_left kind message ha ih
  induction hc with
  | refl => exact hleft
  | report kind message _ hrun ih => simpa [hrun] using Buildable.astray_right kind message ha ih

/-- Two runs that cannot succeed, each followed alone. -/
theorem Runs.of_solos {L M : List Step} {x y : Parser α} {Q : α → α → Session → Session → Prop}
    (ha : P.askew L M) (h : P.rel p s.builder t.builder)
    (hx : (solo s.builder (lookAt 0 L).2).Runs False p x x s s fun _ _ _ _ => False)
    (hy : (solo t.builder (lookAt 0 M).2).Runs False p y y t t fun _ _ _ _ => False) :
    P.Runs True p x y s t Q := by
  have h := Buildable.strays h
  unfold Runs
  obtain ⟨e, s', hs, hsF, hsb, hsl⟩ | ⟨f, s', hs, b, kind, message, hb, hrun⟩ := hx.of_solo
  · obtain ⟨e', t', ht, htF, htb, htl⟩ | ⟨f, t', ht, c, kind, message, hc, hrun⟩ := hy.of_solo
    · rw [hs, ht]
      exact .crossed trivial hsF htF hsl htl ha (reports_astray ha h hsb htb)
    · rw [ht]
      have haside := Buildable.astray_right kind message ha (reports_astray ha h .refl hc)
      rw [hrun] at haside
      exact .right haside
  · rw [hs]
    have haside := Buildable.astray_left kind message ha (reports_astray ha h hb .refl)
    rw [hrun] at haside
    exact .left haside

/-! Looking across a newline -/

/-- A token that ends a line, behind tokens of known kinds that do not. -/
structure Row (ks : List TokenKind) (ts : List Token) (nl : Token) : Prop where
  kinds : ts.map (·.kind) = ks
  inline : ∀ k ∈ ks, k.isNewline = false
  newline : nl.kind = .newline

/-- The steps of a row, and what is behind it. -/
def Row.steps (ts : List Token) (nl : Token) (L : List Step) : List Step :=
  ts.map .ok ++ .ok nl :: L

omit [P.Buildable] in
theorem Row.tail {u nl : Token} {us : List Token} (h : Row (k :: ks) (u :: us) nl) :
    u.kind = k ∧ u.kind.isNewline = false ∧ Row ks us nl := by
  obtain ⟨rfl, hks⟩ := List.cons.inj h.kinds
  exact ⟨rfl, h.inline _ List.mem_cons_self, hks,
    fun k hk => h.inline k (List.mem_cons_of_mem _ hk), h.newline⟩

omit [P.Buildable] in
theorem Row.ahead {ts : List Token} {nl : Token} (h : Row ks ts nl) (L : List Step) :
    Ahead (ks ++ [.newline]) (Row.steps ts nl L) := by
  induction ts generalizing ks with
  | nil =>
    obtain rfl : [] = ks := h.kinds
    exact ⟨h.newline, trivial⟩
  | cons u us ih =>
    obtain rfl : u.kind :: us.map (·.kind) = ks := h.kinds
    exact ⟨rfl, ih h.tail.2.2⟩

omit [P.Buildable] in
theorem Row.lookAt {ts : List Token} {nl : Token} (h : Row ks ts nl) (L : List Step) :
    lookAt (ks.length + 1) (Row.steps ts nl L) =
      ((lookAt 0 L).1, Row.steps ts nl (lookAt 0 L).2) := by
  rw [← h.kinds, List.length_map]
  exact lookAt_append ts 1 (.ok nl :: L)

omit [P.Buildable] in
theorem solo_mid {b : Builder} {ts : List Token} {nl : Token} (h : Row ks ts nl) (L : List Step) :
    (solo b L).mid (Row.steps ts nl L) (Row.steps ts nl L) := by
  induction ts generalizing ks with
  | nil => exact .newline rfl (by rw [h.newline]; rfl) ⟨rfl, rfl⟩
  | cons u us ih =>
    obtain rfl : u.kind :: us.map (·.kind) = ks := h.kinds
    exact .token rfl h.tail.2.1 (ih h.tail.2.2)

/-- Two lines whose tokens are known, and what is behind them. -/
theorem mid_rows {K N : List Step} (h : P.mid K N) (ha : Ahead (ks ++ [.newline]) K)
    (hks : ∀ k ∈ ks, k.isNewline = false) :
    ∃ ts us nl nl' L M, Row ks ts nl ∧ Row ks us nl' ∧ K = Row.steps ts nl L ∧
      N = Row.steps us nl' M ∧ P.start L M ∧
      ∀ {L' M'}, P.start L' M' → P.mid (Row.steps ts nl L') (Row.steps us nl' M') := by
  -- Token by token, until the newline that the kinds end with.
  induction ks generalizing K N with
  | nil =>
    cases h with
    | nil _ => exact ha.elim
    | fault _ _ => exact ha.elim
    | @token u _ _ _ _ hn _ =>
      rw [show u.kind = .newline from ha.1] at hn
      cases hn
    | @newline u v L M htok hn hst =>
      have hu : u.kind = .newline := ha.1
      have hv : v.kind = .newline := (Readable.like htok).kind ▸ hu
      exact ⟨[], [], u, v, L, M, ⟨rfl, hks, hu⟩, ⟨rfl, hks, hv⟩, rfl, rfl, hst,
        fun h => .newline htok hn h⟩
  | cons k ks ih =>
    have hk := hks k List.mem_cons_self
    have hks' : ∀ k ∈ ks, k.isNewline = false := fun k hk => hks k (List.mem_cons_of_mem _ hk)
    cases h with
    | nil _ => exact ha.elim
    | fault _ _ => exact ha.elim
    | @newline u _ _ _ _ hn _ =>
      rw [show u.kind = k from ha.1, hk] at hn
      cases hn
    | @token u v K N htok hn h =>
      obtain ⟨ts, us, nl, nl', L, M, ht, hu, rfl, rfl, hst, hmid⟩ := ih h ha.2 hks'
      have huk : u.kind = k := ha.1
      have hvk : v.kind = k := (Readable.like htok).kind ▸ huk
      refine ⟨u :: ts, v :: us, nl, nl', L, M, ⟨?_, hks, ht.newline⟩, ⟨?_, hks, hu.newline⟩, rfl,
        rfl, hst, fun h => .token htok hn (hmid h)⟩
      · rw [List.map_cons, huk, ht.kinds]
      · rw [List.map_cons, hvk, hu.kinds]

/-- A run that has looked across the end of its line and cannot succeed, followed alone. -/
theorem solo_crossing {ts : List Token} {nl : Token} {L : List Step}
    {f : Option TokenKind → Parser α} (hrow : Row ks ts nl) (hi : ks.length + 1 ≤ maxLookahead)
    (hs : s.steps = Row.steps ts nl L)
    (hf : ∀ (P : Pairing) [P.Readable] (cr : Prop) (a : Option TokenKind) (s t : Session),
      P.Mid p (ks ++ [.newline]) s t → P.Runs cr p (f a) (f a) s t fun _ _ _ _ => False) :
    (solo s.builder (lookAt 0 L).2).Runs False p (Parser.peekKind (ks.length + 1) >>= f)
      (Parser.peekKind (ks.length + 1) >>= f) s s fun _ _ _ _ => False := by
  obtain ⟨s', hrun, hss, hsb, hsF⟩ := s.run_peek hi
  rw [hs, hrow.lookAt] at hrun hss
  have hm : (solo s.builder (lookAt 0 L).2).Mid p (ks ++ [.newline]) s' s' := by
    refine ⟨⟨rfl, hsb ▸ .refl⟩, ?_, ?_⟩
    · rw [hss]
      exact solo_mid hrow _
    · rw [hss]
      exact hrow.ahead _
  unfold Parser.peekKind
  rw [bind_assoc]
  unfold Runs
  rw [run_bind, hrun]
  -- A fault behind the line breaks the rule at once, and any kind does so further on.
  cases hl : (lookAt 0 L).1 with
  | error e => exact .broken hsF hsF rfl hm.weaken
  | ok a =>
    exact (hf _ False _ s' s' hm).follows hsF hsF fun _ _ _ _ _ _ h => h

/-- Two runs look across the end of their line, where they cannot succeed. -/
theorem peekKind_crossing (ks : List TokenKind) {f : Option TokenKind → Parser α}
    {Q : α → α → Session → Session → Prop} (h : P.Mid p (ks ++ [.newline]) s t)
    (hks : ∀ k ∈ ks, k.isNewline = false) (hi : ks.length + 1 ≤ maxLookahead)
    (hf : ∀ (P : Pairing) [P.Readable] (cr : Prop) (a : Option TokenKind) (s t : Session),
      P.Mid p (ks ++ [.newline]) s t → P.Runs cr p (f a) (f a) s t fun _ _ _ _ => False) :
    P.Runs True p (Parser.peekKind (ks.length + 1) >>= f)
      (Parser.peekKind (ks.length + 1) >>= f) s t Q := by
  obtain ⟨ts, us, nl, nl', L, M, hrow, hrow', hs, ht, hst, hmid⟩ := mid_rows h.steps h.ahead hks
  obtain hglimpse | hask := Buildable.glimpse hst
  · obtain ⟨s', hrun, hss, hsb, hsF⟩ := s.run_peek hi
    obtain ⟨t', hrun', htt, htb, htF⟩ := t.run_peek hi
    rw [hs, hrow.lookAt] at hrun hss
    rw [ht, hrow'.lookAt] at hrun' htt
    have hrel : P.rel p s'.builder t'.builder := Still.rel ⟨hsb, htb⟩ h.rel
    unfold Parser.peekKind Runs
    rw [bind_assoc, run_bind, run_bind, hrun, hrun']
    -- Where no fault is met, the kinds that are seen are the same.
    have hgo (a : Option TokenKind) (hss : s'.steps = s.steps) (htt : t'.steps = t.steps) :
        P.Ends True p s t Q ((f a).run s') ((f a).run t') := by
      have hm : P.Mid p (ks ++ [.newline]) s' t' := ⟨hrel, hss ▸ htt ▸ h.steps, hss ▸ h.ahead⟩
      exact (hf P True a s' t' hm).follows hsF htF fun _ _ _ _ _ _ h => h.elim
    cases hglimpse with
    | nil => exact hgo none (hss.trans hs.symm) (htt.trans ht.symm)
    | @token u v L M hkind =>
      show P.Ends True p s t Q ((f (some u.kind)).run s') ((f (some v.kind)).run t')
      rw [← hkind]
      exact hgo (some u.kind) (hss.trans hs.symm) (htt.trans ht.symm)
    | fault he hst' => exact .broken hsF htF he ⟨hrel, hss ▸ htt ▸ hmid hst', trivial⟩
  · exact Runs.of_solos hask h.rel (solo_crossing hrow hi hs hf) (solo_crossing hrow' hi ht hf)

/-! Dead ends -/

omit [P.Buildable] in
theorem value_newline [P.Readable] (h : P.Mid p (.newline :: ks) s t)
    (Q : Expression → Expression → Session → Session → Prop) :
    P.Runs cr p Parser.value Parser.value s t Q := by
  show P.Ends cr p s t _ (Act.nest Parser.valueStep s) (Act.nest Parser.valueStep t)
  rw [Act.nest, Act.nest]
  apply (peekKind_known h (n := 0) rfl (by simp) (Nat.zero_le _)).bind
  rintro _ s' t' - - - hm ⟨rfl, -⟩
  exact unexpected_runs hm _ _

omit [P.Buildable] in
theorem method_newline [P.Readable] (h : P.Mid p (.newline :: ks) s t)
    (Q : Expression → Expression → Session → Session → Prop) :
    P.Runs cr p Parser.method Parser.method s t Q := by
  apply (peekKind_known h (n := 0) rfl (by simp) (Nat.zero_le _)).bind
  rintro _ s' t' - - - hm ⟨rfl, -⟩
  exact unexpected_runs hm _ _

omit [P.Buildable] in
/-- `T = x .` at the end of a line is no operation. -/
theorem binaryAssignment_dot [P.Readable] (h : P.Mid p [k, .operator .dot, .newline] s t)
    (a : Target) (Q : Unit → Unit → Session → Session → Prop) :
    P.Runs cr p (Parser.binaryAssignment a) (Parser.binaryAssignment a) s t Q := by
  apply (value_reads h).bind
  intro left s₁ t₁ _ _ _ hm _
  have hm : P.Mid p [.operator .dot, .newline] s₁ t₁ := hm
  apply (advance_runs hm rfl).bind
  intro u v s₂ t₂ _ _ ht
  rw [← (Readable.like ht.tok).kind, ht.kind]
  exact (value_newline ht.mid fun _ _ _ _ => False).bind fun _ _ _ _ _ _ h => h.elim

omit [P.Buildable] in
/-- `T = x .` at the end of a line is no method call. -/
theorem invocation_dot [P.Readable] (h : P.Mid p [k, .operator .dot, .newline] s t)
    (hk : ∀ x, k ≠ .string x) (Q : Invocation → Invocation → Session → Session → Prop) :
    P.Runs cr p Parser.invocation Parser.invocation s t Q := by
  apply (peekKind_known h (n := 0) rfl (by simp) (Nat.zero_le _)).bind
  rintro _ s₁ t₁ - - - hm ⟨rfl, -⟩
  split
  · exact unexpected_runs hm _ _
  next x heq => exact absurd (Option.some.inj heq) (hk x)
  apply (pmcObject_reads hm).bind
  intro object s₂ t₂ _ _ _ hm _
  apply (eatOperator_reads hm .dot).bind
  rintro eaten s₃ t₃ - - - hm ⟨hdot, -, -⟩
  obtain rfl : eaten = true := hdot _ rfl
  apply (reads_build hm (invocantTarget_answers hm.rel object)).bind
  intro i s₄ t₄ _ _ _ hm _
  exact (method_newline hm fun _ _ _ _ => False).bind fun _ _ _ _ _ _ h => h.elim

/-! Assignments -/

variable {a : Target}

theorem literalAssignment_completes (h : P.Mid .body (k :: ks) s t) (hk : k.isNewline = false)
    (ha : s.builder.Made (.target a)) :
    P.Completes cr .body (Parser.literalAssignment a k) s t := by
  apply (advance_runs h hk).bind
  intro u v s' t' _ _ ht
  have ha' := ha.within (.of_eq ht.still.1)
  cases k with
  | int v => exact completes_build ht.mid (assignInt_keeps ht.mid.rel ha' v)
  | num v => exact completes_build ht.mid (assignNum_keeps ht.mid.rel ha' v)
  | string v => exact completes_build ht.mid (set_keeps ht.mid.rel ha' (.constant _))
  | _ =>
    apply (endOfLine_runs ht.mid).bind
    rintro _ _ s'' t'' - - ⟨-, hb⟩
    exact Runs.pure ⟨rfl, hb⟩

theorem binaryAssignment_completes {o : Operator} (h : P.Mid .body [k, .operator o] s t)
    (ho : (BinaryOp.ofInfix? o).isSome = true) (ha : s.builder.Made (.target a)) :
    P.Completes cr .body (Parser.binaryAssignment a) s t := by
  have hbehind : behindValue [k, .operator o] = [.operator o] := by
    cases o <;> first | rfl | simp [BinaryOp.ofInfix?] at ho
  apply (value_reads h).bind
  intro left s₁ t₁ _ _ hw₁ hm hl
  rw [hbehind] at hm
  apply (advance_runs hm rfl).bind
  intro u v s₂ t₂ _ _ ht
  have hw₂ := Builder.Within.of_eq ht.still.1
  rw [← (Readable.like ht.tok).kind, ht.kind]
  obtain ⟨op, hop⟩ := Option.isSome_iff_exists.1 ho
  rw [show Parser.infixOp? (some (.operator o)) = some op from hop]
  apply (value_reads ht.mid).bind
  intro right s₃ t₃ _ _ hw₃ hm hr
  exact completes_build hm (assignBinary_keeps hm.rel (ha.within ((hw₁.trans hw₂).trans hw₃))
    (hl.within (hw₂.trans hw₃)) op hr)

theorem callAssignment_completes (h : P.Mid .body ks s t) (ha : s.builder.Made (.target a)) :
    P.Completes cr .body (Parser.callAssignment a) s t := by
  apply (invocation_reads h).bind
  intro i s' t' _ _ hw hm hi
  exact completes_build hm (shortInvocation_keeps hm.rel hi (by
    simpa [Builder.MadeTargets] using ha.within hw))

theorem opAssignment_completes (h : P.Mid .body (k :: ks) s t) (hk : k.isNewline = false)
    (ha : s.builder.Made (.target a)) :
    P.Completes cr .body (Parser.opAssignment a) s t := by
  apply (advanceText_reads h hk).bind
  intro name s₁ t₁ _ _ hw₁ hm _
  apply (atOperator_reads hm (Nat.zero_le _) (by simp) (Nat.zero_le _) .leftBracket).bind
  rintro (_ | _) s₂ t₂ - - hw₂ hm -
  · apply (opArguments_reads hm).bind
    intro operands s₃ t₃ _ _ hw₃ hm ho
    exact completes_build hm
      (assignOp_keeps hm.rel (ha.within ((hw₁.trans hw₂).trans hw₃)) name ho)
  · apply (key_reads hm).bind
    intro key s₃ t₃ _ _ hw₃ hm hkey
    apply (eatOperator_reads hm .comma).bind
    rintro (_ | _) s₄ t₄ - - hw₄ hm -
    · exact completes_build hm (assignKeyed_keeps hm.rel
        (ha.within (((hw₁.trans hw₂).trans hw₃).trans hw₄)) name (hkey.within hw₄))
    · apply (opArguments_reads hm).bind
      intro operands s₅ t₅ _ _ hw₅ hm ho
      -- The key was the first operand, and the others follow behind the comma.
      refine completes_build hm (assignOp_keeps hm.rel
        (ha.within ((((hw₁.trans hw₂).trans hw₃).trans hw₄).trans hw₅)) name fun e he => ?_)
      obtain rfl | he := List.mem_cons.1 he
      · exact .inl (hkey.within (hw₄.trans hw₅))
      · exact ho e he

theorem unaryAssignment_completes (h : P.Mid .body (k :: ks) s t) (hk : k.isNewline = false)
    (ha : s.builder.Made (.target a)) (o : Operator) :
    P.Completes cr .body (Parser.unaryAssignment a o) s t := by
  unfold Parser.unaryAssignment
  split
  · exact unexpected_runs h _ _
  · apply (advance_runs h hk).bind
    intro u v s₁ t₁ _ _ ht
    apply (value_reads ht.mid).bind
    intro e s₂ t₂ _ _ hw hm he
    have hw' := (Builder.Within.of_eq ht.still.1).trans hw
    exact completes_build hm (assignUnary_keeps hm.rel (ha.within hw') _ he)

theorem literalOrBinary_completes {next : Option TokenKind}
    (h : P.Mid .body ([k] ++ next.toList) s t) (hk : k.isNewline = false)
    (ha : s.builder.Made (.target a)) :
    P.Completes cr .body (Parser.literalOrBinary a k next) s t := by
  unfold Parser.literalOrBinary
  split
  next hop =>
    unfold Parser.infixOp? at hop
    split at hop
    · exact binaryAssignment_completes h hop ha
    · simp at hop
  next => exact literalAssignment_completes h hk ha

theorem eq_newline (h : k.isNewline = true) : k = .newline := by
  cases k <;> simp_all [TokenKind.isNewline]

omit [P.Buildable] in
/-- Behind tokens that are known, one looks at the second next token within the line, or the line
ends before it. -/
theorem looks_or_newline {K N : List Step} (h : P.mid K N) (ha : Ahead ks K)
    (hks : ∀ k ∈ ks, k.isNewline = false) :
    InLine.Looks P.tok P.err P.start K N (lookAt (ks.length + 1) K) (lookAt (ks.length + 1) N) ∨
      Ahead (ks ++ [.newline]) K := by
  -- Along the known kinds the line goes on; behind them it may be over.
  induction ks generalizing K N with
  | nil =>
    cases h with
    | nil _ => exact .inl .none
    | fault he h => exact .inl (.fault he h)
    | newline _ hn _ => exact .inr ⟨eq_newline hn, trivial⟩
    | token htok hn h => exact .inl (h.looks_zero.cons htok hn)
  | cons k ks ih =>
    cases h with
    | nil _ => exact ha.elim
    | fault _ _ => exact ha.elim
    | @newline u _ _ _ _ hn _ =>
      rw [show u.kind = k from ha.1, hks k List.mem_cons_self] at hn
      cases hn
    | token htok hn h =>
      obtain hl | hl := ih h ha.2 fun k hk => hks k (List.mem_cons_of_mem _ hk)
      · exact .inl (hl.cons htok hn)
      · exact .inr ⟨ha.1, hl⟩

omit [P.Buildable] in
theorem atCall_eq {next : Option TokenKind} (hparen : next.any (·.isOperator .leftParen) = false)
    {g : Bool → Parser α} : (Parser.atCall next >>= g) =
    Parser.peekKind 1 >>= fun k => if k.any (·.isOperator .dot) then
      Parser.peekKind 3 >>= fun k => g (k.any (·.isOperator .leftParen)) else g false := by
  unfold Parser.atCall Parser.atMethodCall Parser.atOperator andM
  simp only [hparen, Bool.false_eq_true, if_false, bind_assoc]
  refine congrArg _ (funext fun k => ?_)
  cases k.any (·.isOperator .dot) <;> simp [toBool]

omit [P.Buildable] in
/-- The token behind the next one is seen again, or the end of the text is. -/
theorem peekKind_again [P.Readable] {next : Option TokenKind}
    (h : P.Mid p ([k] ++ next.toList) s t) (hk : k.isNewline = false)
    (hend : next = none → lookAt 1 s.steps = (.ok none, s.steps) ∧
      lookAt 1 t.steps = (.ok none, t.steps)) :
    P.Reads cr p (Parser.peekKind 1) (Parser.peekKind 1) s t (fun _ => [k] ++ next.toList)
      fun a s' t' => a = next ∧ Still s t s' t' := by
  cases next with
  | none =>
    obtain ⟨hl, hl'⟩ := hend rfl
    have hlooks : InLine.Looks P.tok P.err P.start s.steps t.steps (lookAt 1 s.steps)
        (lookAt 1 t.steps) := by
      rw [hl, hl']
      exact .none
    apply (peek_runs h (n := 1) (by decide) hlooks).bind
    rintro b b' s' t' - - ⟨hst, hm, hsees, -, -, hb, -⟩
    obtain rfl : none = b := by simpa [hl] using hb
    exact Runs.pure ⟨hsees.kind, .of_eq hst.1, hm, rfl, hst⟩
  | some k' =>
    have hhead : ∀ k'' ∈ [k, k'].take 1, k''.isNewline = false := by simpa using hk
    exact (peekKind_known h (n := 1) rfl hhead (by decide)).imp fun a s' t' _ hm hr => ⟨hm, hr⟩

/-- What follows once it is known whether a call is ahead. -/
theorem callOrValue_decided {next : Option TokenKind} {rest : Parser Unit} (isCall : Bool)
    (h : P.Mid .body ([k] ++ next.toList) s t) (ha : s.builder.Made (.target a))
    (hrest : ∀ s' t', s'.builder.Made (.target a) → P.Mid .body [k] s' t' →
      P.Completes True .body rest s' t') :
    P.Completes True .body
      (if isCall then Parser.callAssignment a
        else if (Parser.infixOp? next).isSome then Parser.binaryAssignment a
        else rest) s t := by
  split
  next => exact callAssignment_completes h ha
  split
  next hop =>
    unfold Parser.infixOp? at hop
    split at hop
    · exact binaryAssignment_completes h hop ha
    · simp at hop
  next => exact hrest s t ha (h.take 1)

/-- A value that is no literal: a call, an operation, or what stands there alone. The look for the
parenthesis of a method call may cross the end of the line. -/
theorem callOrValue_completes {next : Option TokenKind} {rest : Parser Unit}
    (h : P.Mid .body ([k] ++ next.toList) s t) (hk : k.isNewline = false)
    (hend : next = none → lookAt 1 s.steps = (.ok none, s.steps) ∧
      lookAt 1 t.steps = (.ok none, t.steps))
    (hstring : ∀ x, k ≠ .string x) (ha : s.builder.Made (.target a))
    (hrest : ∀ s' t', s'.builder.Made (.target a) → P.Mid .body [k] s' t' →
      P.Completes True .body rest s' t') :
    P.Completes True .body
      (do
        if ← Parser.atCall next then Parser.callAssignment a
        else if (Parser.infixOp? next).isSome then Parser.binaryAssignment a
        else rest) s t := by
  -- A parenthesis is a call for sure; else the token behind the next one decides, or the one behind
  -- that.
  cases hparen : next.any (·.isOperator .leftParen) with
  | true =>
    have hcall : Parser.atCall next = pure true := by
      unfold Parser.atCall
      rw [if_pos hparen]
    rw [hcall, pure_bind]
    exact callOrValue_decided true h ha hrest
  | false =>
    rw [atCall_eq hparen]
    apply (peekKind_again h hk hend).bind
    rintro _ s₁ t₁ - - - hm ⟨rfl, hst⟩
    split
    next hdot =>
      obtain ⟨k', rfl, hk'⟩ := Option.any_eq_true _ _ |>.1 hdot
      obtain rfl := isOperator_eq_true.1 hk'
      have hks : ∀ k' ∈ [k, TokenKind.operator .dot], k'.isNewline = false := by
        intro k' hk'
        obtain rfl | rfl := by simpa using hk'
        · exact hk
        · rfl
      obtain hl | hnl := looks_or_newline hm.steps hm.ahead hks
      · unfold Parser.peekKind
        rw [bind_assoc]
        apply (peek_runs hm (n := 3) (by decide) hl).bind
        rintro b b' s₂ t₂ - - ⟨hst', hm', hsees, -⟩
        rw [pure_bind, pure_bind, ← hsees.kind]
        exact callOrValue_decided _ hm' (ha.within (.of_eq (hst.trans hst').1)) hrest
      · apply peekKind_crossing [k, .operator .dot] ⟨hm.rel, hm.steps, hnl⟩ hks
          (by simp [maxLookahead])
        intro P _ cr b s t hm
        split
        · exact (invocation_dot hm hstring fun _ _ _ _ => False).bind fun _ _ _ _ _ _ h => h.elim
        · exact binaryAssignment_dot hm a _
    next => exact callOrValue_decided false hm (ha.within (.of_eq hst.1)) hrest

/-- The right-hand side of an assignment. -/
theorem assignment_completes (h : P.Mid .body ks s t) (ha : s.builder.Made (.target a)) :
    P.Completes True .body (Parser.assignment a) s t := by
  apply (peekKind_zero h).bind
  rintro (_ | k) s₁ t₁ - - hw hm -
  · exact unexpected_runs hm _ _
  have hm : P.Mid .body [k] s₁ t₁ := hm.take 1
  -- An assignment without a value looks one token into the next line before it breaks.
  cases hk : k.isNewline with
  | true =>
    obtain rfl := eq_newline hk
    apply peekKind_crossing [] hm (by simp) (by simp [maxLookahead])
    intro P _ cr _ s t hm
    exact unexpected_runs hm _ _
  | false =>
    apply (peekKind_next hm (by simpa using hk) (by simp [maxLookahead])).bind
    rintro next s₂ t₂ - - hw₂ hm ⟨-, hend⟩
    have ha' := ha.within (hw.trans hw₂)
    cases k with
    | operator op => exact unaryAssignment_completes hm rfl ha' op
    | string x =>
      dsimp only
      split
      · exact callAssignment_completes hm ha'
      · exact literalOrBinary_completes hm rfl ha'
    | int x => exact literalOrBinary_completes hm rfl ha'
    | num x => exact literalOrBinary_completes hm rfl ha'
    | register cls number =>
      apply callOrValue_completes hm rfl hend (by simp) ha'
      intro s t ha hm
      apply (value_reads hm).bind
      intro e s t _ _ hw hm he
      exact completes_build hm (assignExpression_keeps hm.rel (ha.within hw) he)
    | identifier | keyword =>
      apply callOrValue_completes hm rfl hend (by simp) ha'
      intro s t ha hm
      exact opAssignment_completes hm rfl ha
    | _ => exact unexpected_runs hm _ _

end Pairing
end PirFrontend
