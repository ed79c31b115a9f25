import PirFrontend.Proofs.LineEndings
import PirFrontend.Proofs.Yields

/-!
Augmented assignments. `T op= E` and its long form `T = T op E` read their first tokens by rules of
their own and then come to one place: a value is read, the line ends, and the value is combined with
the target.
-/
namespace PirFrontend

open PirFrontend.Parser (Place Block)

variable {ε α β : Type} {L L' L'' : List Step} {b b' b'' : Builder}

namespace Act

/-- Where `L` is left to read, the action goes on as `y` with `L'` left, and has made `b'` of the
builder `b` by then. -/
def Leads (x : Act ε α) (L : List Step) (b : Builder) (y : Act ε α) (L' : List Step)
    (b' : Builder) : Prop :=
  ∀ s : Session, s.steps = L → s.builder = b →
    ∃ s', x.run s = y.run s' ∧ s'.steps = L' ∧ s'.builder = b'

theorem Leads.refl (x : Act ε α) (L : List Step) (b : Builder) : x.Leads L b x L b :=
  fun s hs hb => ⟨s, rfl, hs, hb⟩

/-- What is put behind both actions stays there. -/
theorem Leads.bind {x y : Act ε α} (h : x.Leads L b y L' b') (f : α → Act ε β) :
    (x >>= f).Leads L b (y >>= f) L' b' := by
  intro s hs hb
  obtain ⟨s', hrun, hs', hb'⟩ := h s hs hb
  exact ⟨s', by rw [run_bind, run_bind, hrun], hs', hb'⟩

theorem Leads.map {x y : Act ε α} (h : x.Leads L b y L' b') (g : α → β) :
    (g <$> x).Leads L b (g <$> y) L' b' :=
  h.bind fun a => pure (g a)

/-- What is put behind the answer of an action follows the action. -/
theorem Leads.answer {x : Act ε α} {y : Act ε Unit} {r : α}
    (h : x.Leads L b (do y; pure r) L' b') (f : α → Act ε β) :
    (x >>= f).Leads L b (do y; f r) L' b' := by
  have hbind := h.bind f
  rw [bind_assoc] at hbind
  simp only [pure_bind] at hbind
  exact hbind

/-- What an action answers is handed on. -/
theorem Yields.leads {x : Act ε α} {f : α → Act ε β} {y : Act ε β} {a : α}
    (hx : x.Yields L b a L' b') (hf : (f a).Leads L' b' y L'' b'') :
    (x >>= f).Leads L b y L'' b'' := by
  intro s hs hb
  obtain ⟨s', hrun, hs', hb'⟩ := hx s hs hb
  obtain ⟨s'', hrun', hs'', hb''⟩ := hf s' hs' hb'
  exact ⟨s'', (run_bind_ok hrun).trans hrun', hs'', hb''⟩

end Act

namespace Parser

open Act (Yields Leads)

variable {t u v w : Token} {a : Target} {o : Operator} {op : BinaryOp}

/-! The target -/

/-- The token spells the target: a register, or a declared symbol. -/
def Spells (b : Builder) (t : Token) (a : Target) : Prop :=
  (∃ cls number, t.kind = .register cls number ∧
    a = .register (.ofRegisterClass cls) number) ∨
  t.kind = .identifier ∧ ∃ s, b.lookup t.lexeme = some s ∧ a = .ofSymbol s

/-- A register or a symbol is the same as itself. -/
theorem Spells.same (h : Spells b t a) : a.same a = true := by
  obtain ⟨cls, number, -, rfl⟩ | ⟨-, s, -, rfl⟩ := h
  · simp [Target.register, Target.ofStorage, Target.same, Storage.same]
  · simp [Target.ofSymbol, Target.ofStorage, Target.same, Storage.same]

theorem Spells.not_newline (h : Spells b t a) : t.kind.isNewline = false := by
  obtain ⟨cls, number, ht, -⟩ | ⟨ht, -⟩ := h <;> rw [ht] <;> rfl

theorem value_symbol {s : Symbol} (ht : t.kind = .identifier) (hs : b.lookup t.lexeme = some s)
    (hL : Unindexed L) : value.Yields (.ok t :: L) b (.target (.ofSymbol s)) L b := by
  obtain ⟨u, M, rfl, hu⟩ := hL
  have hpeek := peekKind_yields b t (.ok u :: M)
  have hbracket : (atOperator 0 .leftBracket).Yields (.ok u :: M) b
      (u.kind.isOperator .leftBracket) (.ok u :: M) b :=
    (peekKind_yields b u M).bind (.pure _)
  rw [ht] at hpeek
  rw [hu] at hbracket
  exact .nest valueStep_guarded (hpeek.bind ((advanceText_yields b t _).bind
    (hbracket.bind (.build (Build.run_identifierValue hs)))))

/-- Read as a value, the token is its target. -/
theorem Spells.value (h : Spells b t a) (hL : Unindexed L) :
    value.Yields (.ok t :: L) b (.target a) L b := by
  obtain ⟨cls, number, ht, rfl⟩ | ⟨ht, s, hs, rfl⟩ := h
  · exact value_register ht hL
  · exact value_symbol ht hs hL

/-! The long form -/

/-- A target that is its own left operand drops out of the operation. -/
theorem assignBinary_self (ha : a.same a = true) (op : BinaryOp) (e : Expression) :
    Build.assignBinary a (.target a) op e = Build.augmentedAssign a op e := by
  have hsources : Build.sources a (.target a) e = [e] := if_pos ha
  rw [Build.assignBinary, hsources]
  · rfl
  · rintro c d ⟨⟩

/-- No operator between two operands opens a bracket or a parenthesis. -/
theorem infix_ne_bracket (ho : BinaryOp.ofInfix? o = some op) :
    o ≠ .leftBracket ∧ o ≠ .leftParen ∧ o ≠ .assign := by
  refine ⟨?_, ?_, ?_⟩ <;> rintro rfl <;> cases ho

/-- Behind a point and one more token, no parenthesis begins the arguments of a method. -/
def Plain (L : List Step) : Prop := ∃ w, lookAt 3 L = (.ok w, L) ∧
  w.any (·.kind.isOperator .leftParen) = false

theorem atMethodCall_plain (hplain : Plain (.ok t :: .ok u :: L)) :
    atMethodCall.Yields (.ok t :: .ok u :: L) b false (.ok t :: .ok u :: L) b := by
  obtain ⟨w, hlook, hw⟩ := hplain
  have hpeek : (peekKind 3).Yields (.ok t :: .ok u :: L) b (w.map (·.kind)) (.ok t :: .ok u :: L)
      b := (peek_yields (by decide) hlook).bind (.pure _)
  have hthird : (atOperator 3 .leftParen).Yields (.ok t :: .ok u :: L) b
      ((w.map (·.kind)).any (·.isOperator .leftParen)) (.ok t :: .ok u :: L) b :=
    hpeek.bind (.pure _)
  rw [Option.any_map, hw] at hthird
  refine (atOperator_second b .dot t u L).bind ?_
  cases u.kind.isOperator .dot with
  | true => exact hthird
  | false => exact .pure false

theorem binaryAssignment_leads (h : Spells b t a) (hu : u.kind = .operator o)
    (ho : BinaryOp.ofInfix? o = some op) (L : List Step) :
    (binaryAssignment a).Leads (.ok t :: .ok u :: L) b (combine a op) L b := by
  have hunindexed : Unindexed (.ok u :: L) := by
    refine ⟨u, L, rfl, ?_⟩
    rw [hu]
    exact beq_false_of_ne (infix_ne_bracket ho).1
  refine (h.value hunindexed).leads ((advance_yields b u L).leads ?_)
  have hop : infixOp? (some u.kind) = some op := by
    rw [hu]
    exact ho
  simp only [hop, assignBinary_self h.same op]
  exact .refl _ L b

/-- Behind the equals sign of the long form. -/
theorem assignment_leads (h : Spells b t a) (hu : u.kind = .operator o)
    (ho : BinaryOp.ofInfix? o = some op) (hplain : Plain (.ok t :: .ok u :: L)) :
    (assignment a).Leads (.ok t :: .ok u :: L) b (combine a op) L b := by
  have hpeek := peekKind_yields b t (.ok u :: L)
  have hnext := peekKind_second b t u L
  have hcall : (atCall (some u.kind)).Yields (.ok t :: .ok u :: L) b false
      (.ok t :: .ok u :: L) b := by
    have hparen : (some u.kind).any (·.isOperator .leftParen) = false := by
      rw [hu]
      exact beq_false_of_ne (infix_ne_bracket ho).2.1
    unfold atCall
    rw [hparen]
    exact atMethodCall_plain hplain
  have hinfix : (infixOp? (some u.kind)).isSome = true := by
    rw [hu]
    exact Option.isSome_iff_exists.2 ⟨op, ho⟩
  have hbinary := binaryAssignment_leads h hu ho L
  refine hpeek.leads (hnext.leads ?_)
  obtain ⟨cls, number, ht, -⟩ | ⟨ht, -⟩ := h
  · rw [ht]
    refine hcall.leads ?_
    rw [if_neg Bool.false_ne_true, if_pos hinfix]
    exact hbinary
  · rw [ht]
    refine hcall.leads ?_
    rw [if_neg Bool.false_ne_true, if_pos hinfix]
    exact hbinary

theorem longForm_leads (ht : Spells b t a) (hw : w.kind = .operator .assign) (hu : Spells b u a)
    (hv : v.kind = .operator o) (ho : BinaryOp.ofInfix? o = some op)
    (hplain : Plain (.ok u :: .ok v :: L)) :
    statement.Leads (.ok t :: .ok w :: .ok u :: .ok v :: L) b (combine a op) L b := by
  have hpeek := peekKind_yields b t (.ok w :: .ok u :: .ok v :: L)
  have hsecond := peekKind_second b t w (.ok u :: .ok v :: L)
  have hassignment := assignment_leads hu hv ho hplain
  rw [hw] at hsecond
  obtain ⟨cls, number, hkind, rfl⟩ | ⟨hkind, s, hs, rfl⟩ := ht
  · rw [hkind] at hpeek
    exact hpeek.leads (hsecond.leads ((target_yields hkind).leads
      ((advance_yields b w _).leads hassignment)))
  · rw [hkind] at hpeek
    have htarget := Yields.build (L := .ok w :: .ok u :: .ok v :: L) (Build.run_symbolTarget hs)
    exact hpeek.leads (hsecond.leads ((advanceText_yields b t _).leads
      (htarget.leads ((advance_yields b w _).leads hassignment))))

/-! The augmented form -/

theorem augmented_leads (hv : v.kind = .operator o) (ho : BinaryOp.ofAugmented? o = some op)
    (L : List Step) (b : Builder) : (augmented a).Leads (.ok v :: L) b (combine a op) L b := by
  refine (advance_yields b v L).leads ?_
  simp only [hv, ho]
  exact .refl _ L b

theorem augmentedForm_leads (ht : Spells b t a) (hv : v.kind = .operator o)
    (ho : BinaryOp.ofAugmented? o = some op) (L : List Step) :
    statement.Leads (.ok t :: .ok v :: L) b (combine a op) L b := by
  have hpeek := peekKind_yields b t (.ok v :: L)
  have hsecond := peekKind_second b t v L
  have haugmented := augmented_leads (a := a) hv ho L b
  rw [hv] at hsecond
  obtain ⟨cls, number, hkind, rfl⟩ | ⟨hkind, s, hs, rfl⟩ := ht
  · have htarget := (target_yields (b := b) (L := .ok v :: L) hkind).leads haugmented
    have hregister : (registerStatement cls number).Leads (.ok t :: .ok v :: L) b
        (combine (.register (.ofRegisterClass cls) number) op) L b := by
      refine hsecond.leads ?_
      cases o <;> first | (cases ho; done) | exact htarget
    rw [hkind] at hpeek
    exact hpeek.leads hregister
  · have htarget : (do
        let name ← advanceText
        let a ← Build.symbolTarget name
        augmented a : Parser Unit).Leads (.ok t :: .ok v :: L) b (combine (.ofSymbol s) op) L b :=
      (advanceText_yields b t _).leads ((Yields.build (Build.run_symbolTarget hs)).leads haugmented)
    have hname : nameStatement.Leads (.ok t :: .ok v :: L) b (combine (.ofSymbol s) op) L b := by
      refine hsecond.leads ?_
      cases o <;> first | (cases ho; done) | exact htarget
    rw [hkind] at hpeek
    exact hpeek.leads hname

/-! Lines -/

/-- A line of a body that begins with a target. -/
theorem line_leads {x : Parser Unit} (ht : Spells b t a)
    (h : statement.Leads (.ok t :: L) (b.beginStatement t.line) x L' b') :
    (line .body).Leads (.ok t :: L) b
      (do x; some <$> endStatement) L' b' := by
  have hpeek := peekKind_yields (b.beginStatement t.line) t L
  have hlabelled : labelledStatement.Leads (.ok t :: L) (b.beginStatement t.line)
      (do x; pure none) L' b' := by
    obtain ⟨cls, number, hkind, -⟩ | ⟨hkind, -⟩ := ht <;>
      rw [hkind] at hpeek <;> exact hpeek.leads (hpeek.leads (h.bind fun _ => pure none))
  have hbody : bodyLine.Leads (.ok t :: L) b (do x; endStatement) L' b' := by
    refine (skipNewlines_yields b ht.not_newline L).leads
      ((peek_yields (Nat.zero_le _) rfl).leads ((Yields.change _).leads ?_))
    obtain ⟨cls, number, hkind, -⟩ | ⟨hkind, -⟩ := ht <;> rw [hkind] <;>
      exact hlabelled.answer _
  have hline := hbody.map some
  rwa [map_bind] at hline

theorem Spells.made (h : Spells b t a) : b.Made (.target a) := by
  obtain ⟨cls, number, -, rfl⟩ | ⟨-, s, hs, rfl⟩ := h
  · exact .register _ number
  · exact .symbol hs

/-- From the same builder, and on texts that are alike, a value is combined with the target
alike. -/
theorem combine_runs {P : Pairing} [P.Lawful] {cr : Prop} {s s' : Session} (h : P.Mid .body [] s s')
    (ha : s.builder.Made (.target a)) (op : BinaryOp) :
    P.Runs cr .body (do combine a op; some <$> endStatement)
      (do combine a op; some <$> endStatement) s s'
      fun q q' u u' => q = q' ∧ P.Passed .body q u u' := by
  apply (Pairing.combine_completes h ha op).bind
  rintro _ _ u u' - - ⟨-, hb⟩
  apply (Pairing.endStatement_runs hb.reached).bind
  rintro q _ u u' - - ⟨rfl, hr⟩
  exact .pure ⟨rfl, hr⟩

/-- What is left of two texts that go on with the two forms of a line, and with the same behind the
operators. The target is spelled as `u` is. -/
inductive Forms (u : Token) (op : BinaryOp) : List Step → List Step → Prop
  | mk {t w v x t' x' : Token} {o o' : Operator} {M M' : List Step} : u.Like t →
      w.kind = .operator .assign → u.Like v → x.kind = .operator o →
      BinaryOp.ofInfix? o = some op → Plain (.ok v :: .ok x :: M) → Likeness.exact.Tokens t t' →
      x'.kind = .operator o' → BinaryOp.ofAugmented? o' = some op →
      List.Forall₂ (StepLike .exact) M M' →
      Forms u op (.ok t :: .ok w :: .ok v :: .ok x :: M) (.ok t' :: .ok x' :: M')

/-- Both forms begin with the target. -/
theorem Forms.heads {X Y : List Step} (h : Forms u op X Y) : ∃ t t' X' Y', X = .ok t :: X' ∧
    Y = .ok t' :: Y' ∧ u.Like t ∧ u.Like t' := by
  obtain ⟨ht, -, -, -, -, -, htt', -, -, -⟩ := h
  exact ⟨_, _, _, _, rfl, rfl, ht, ht.kind.trans htt'.like.kind, ht.lexeme.trans htt'.like.lexeme⟩

theorem Spells.like (h : Spells b t a) (htu : t.Like u) : Spells b u a := by
  unfold Spells
  rw [← htu.kind, ← htu.lexeme]
  exact h

/-- A statement that begins declares nothing. -/
theorem Spells.begun (h : Spells b t a) (line : Nat) : Spells (b.beginStatement line) t a := h

/-- A line of a body is read alike in its two forms. -/
theorem Forms.attempted {s s' : Session} (h : Forms u op s.steps s'.steps)
    (hb : s'.builder = s.builder) (hu : Spells s.builder u a) :
    Mirror.everywhere.pairing.Attempted .body s s'
      ((Mended.attempt (line .body) (some .body)).run s)
      ((Mended.attempt (line .body) (some .body)).run s') := by
  have := Mirror.everywhere_continuing
  generalize hs : s.steps = L, hs' : s'.steps = L' at h
  obtain ⟨ht, hw, hv, hx, ho, hplain, htt', hx', ho', hM⟩ := h
  have hline := htt'.line
  have ht' := (hu.like ht).like htt'.like
  -- Up to the value each form is read on its own.
  obtain ⟨r, hrun, hr, hbr⟩ := line_leads (hu.like ht)
    (longForm_leads ((hu.like ht).begun _) hw ((hu.like hv).begun _) hx ho hplain) s hs rfl
  obtain ⟨r', hrun', hr', hbr'⟩ := line_leads ht' (augmentedForm_leads (ht'.begun _) hx' ho' _) s'
    hs' hb
  -- From there on both are the same.
  have hbuilder : r.builder = r'.builder := by rw [hbr, hbr', hline]
  have hsteps : Mirror.everywhere.pairing.mid r.steps r'.steps := by
    rw [hr, hr']
    exact Mirror.everywhere_mid hM
  have hmid : Mirror.everywhere.pairing.Mid .body [] r r' := ⟨⟨hbuilder, trivial⟩, hsteps, trivial⟩
  have hmade : r.builder.Made (.target a) := by
    rw [hbr]
    exact (hu.begun _).made
  have hends : Mirror.everywhere.pairing.Runs (Place.body = .body) .body _ _ r r' _ :=
    combine_runs hmid hmade op
  unfold Pairing.Runs at hends
  rw [← hrun, ← hrun'] at hends
  exact Pairing.attempted_of_ends hends

end Parser
end PirFrontend
