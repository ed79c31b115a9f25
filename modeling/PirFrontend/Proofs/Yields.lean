import PirFrontend.Proofs.Breaking
import PirFrontend.Proofs.Termination

/-!
Rules on the tokens they are made for. Such a rule takes its tokens and no more, and what it answers
and builds depends on nothing but these tokens and the builder.
-/
namespace PirFrontend

variable {ε α β : Type} {L L' L'' : List Step} {b b' b'' : Builder}

namespace Act

/-- Where `L` is left to read, the action answers `a`, leaves `L'`, and makes `b'` of the builder
`b`. -/
def Yields (x : Act ε α) (L : List Step) (b : Builder) (a : α) (L' : List Step) (b' : Builder) :
    Prop :=
  ∀ s : Session, s.steps = L → s.builder = b →
    ∃ s', x.run s = (.ok a, s') ∧ s'.steps = L' ∧ s'.builder = b'

namespace Yields

theorem pure (a : α) : (Pure.pure a : Act ε α).Yields L b a L b :=
  fun s hs hb => ⟨s, rfl, hs, hb⟩

theorem bind {x : Act ε α} {f : α → Act ε β} {a : α} {c : β} (hx : x.Yields L b a L' b')
    (hf : (f a).Yields L' b' c L'' b'') : (x >>= f).Yields L b c L'' b'' := by
  intro s hs hb
  obtain ⟨s', hrun, hs', hb'⟩ := hx s hs hb
  obtain ⟨s'', hrun', hs'', hb''⟩ := hf s' hs' hb'
  exact ⟨s'', (run_bind_ok hrun).trans hrun', hs'', hb''⟩

theorem map {x : Act ε α} {a : α} (g : α → β) (hx : x.Yields L b a L' b') :
    (g <$> x).Yields L b (g a) L' b' :=
  hx.bind (.pure (g a))

theorem change (f : Builder → Builder) : (Act.change f : Act ε Unit).Yields L b () L (f b) := by
  rintro s hs rfl
  exact ⟨⟨s.tokens, f s.builder⟩, rfl, hs, rfl⟩

theorem build {x : Build α} {a : α} (h : x.run b = (.ok a, b')) :
    (liftM x : Parser α).Yields L b a L b' := by
  rintro s hs rfl
  refine ⟨⟨s.tokens, b'⟩, ?_, hs, rfl⟩
  rw [Pairing.run_lift_build, h]

theorem mended {x : Mended α} {a : α} (h : x.Yields L b a L' b') :
    (liftM x : Parser α).Yields L b a L' b' := by
  intro s hs hb
  obtain ⟨s', hrun, hs', hb'⟩ := h s hs hb
  exact ⟨s', by rw [Pairing.run_lift_mended, hrun], hs', hb'⟩

/-- Nothing is mended where no rule is broken. -/
theorem attempt {x : Parser α} {a : α} (h : x.Yields L b a L' b') (otherwise : α) :
    (Mended.attempt x otherwise).Yields L b a L' b' := by
  intro s hs hb
  obtain ⟨s', hrun, hs', hb'⟩ := h s hs hb
  exact ⟨s', by rw [Mended.run_attempt, hrun], hs', hb'⟩

section

variable [OfFatal ε] {step : β → Act ε (β × Bool)} {c c' c'' : β}

theorem iterate_stop (hp : Progresses step) (h : (step c).Yields L b (c', false) L' b') :
    (iterate step c).Yields L b c' L' b' := by
  intro s hs hb
  rw [run_iterate hp]
  exact h.bind (.pure c') s hs hb

theorem iterate_more (hp : Progresses step) (h : (step c).Yields L b (c', true) L' b')
    (hrest : (iterate step c').Yields L' b' c'' L'' b'') :
    (iterate step c).Yields L b c'' L'' b'' := by
  intro s hs hb
  rw [run_iterate hp]
  exact h.bind hrest s hs hb

end

theorem nest [OfFatal ε] {rule : Act ε α → Act ε α} {a : α} (hg : Guarded rule)
    (h : (rule (nest rule)).Yields L b a L' b') : (Act.nest rule).Yields L b a L' b' := by
  intro s hs hb
  rw [run_nest hg]
  exact h s hs hb

end Yields
end Act

namespace Parser

open Act (Yields)

variable {t u : Token}

/-! Words -/

theorem peek_yields {n : Nat} (hn : n ≤ maxLookahead) {a : Option Token}
    (h : lookAt n L = (.ok a, L)) :
    (liftM (TokenStream.peek n) : Parser (Option Token)).Yields L b a L b := by
  rintro s rfl rfl
  obtain ⟨s', hrun, hs', hb', -⟩ := s.run_peek hn
  rw [h] at hrun hs'
  exact ⟨s', hrun, hs', hb'⟩

theorem peekKind_yields (b : Builder) (t : Token) (L : List Step) :
    (peekKind 0).Yields (.ok t :: L) b (some t.kind) (.ok t :: L) b :=
  (peek_yields (Nat.zero_le _) rfl).bind (.pure _)

theorem peekKind_second (b : Builder) (t u : Token) (L : List Step) :
    (peekKind 1).Yields (.ok t :: .ok u :: L) b (some u.kind) (.ok t :: .ok u :: L) b :=
  (peek_yields (by decide) rfl).bind (.pure _)

theorem atOperator_second (b : Builder) (op : Operator) (t u : Token) (L : List Step) :
    (atOperator 1 op).Yields (.ok t :: .ok u :: L) b (u.kind.isOperator op)
      (.ok t :: .ok u :: L) b :=
  (peekKind_second b t u L).bind (.pure _)

theorem atEndOfLine_yields (b : Builder) (t : Token) (L : List Step) :
    (atEndOfLine 0).Yields (.ok t :: L) b t.kind.isNewline (.ok t :: L) b :=
  (peekKind_yields b t L).bind (.pure _)

theorem advance_yields (b : Builder) (t : Token) (L : List Step) :
    advance.Yields (.ok t :: L) b t L b := by
  rintro s hs rfl
  exact run_advance hs

theorem advanceText_yields (b : Builder) (t : Token) (L : List Step) :
    advanceText.Yields (.ok t :: L) b t.lexeme L b :=
  (advance_yields b t L).bind (.pure _)

theorem next_yields (b : Builder) (t : Token) (L : List Step) :
    (liftM TokenStream.next : Parser (Option Token)).Yields (.ok t :: L) b (some t) L b := by
  rintro s hs rfl
  obtain ⟨s', hrun, hs', hb', -⟩ := s.run_next
  rw [hs] at hrun hs'
  exact ⟨s', hrun, hs', hb'⟩

theorem yields_lift_bind {x : Reading α} {f : α → Reading β} {a : α} {c : β}
    (hx : (liftM x : Parser α).Yields L b a L' b')
    (hf : (liftM (f a) : Parser β).Yields L' b' c L'' b'') :
    (liftM (x >>= f) : Parser β).Yields L b c L'' b'' := by
  intro s hs hb
  rw [Pairing.run_lift_reading_bind]
  exact hx.bind hf s hs hb

/-- A token that passes the test is taken. -/
theorem consumeIf_yields {test : Token → Bool} (h : test t = true) :
    (liftM (TokenStream.consumeIf test) : Parser (Option Token)).Yields (.ok t :: L) b (some t)
      L b := by
  refine yields_lift_bind (peek_yields (Nat.zero_le _) rfl) ?_
  dsimp only
  rw [if_pos h]
  exact next_yields b t L

/-- A token that fails the test stays. -/
theorem consumeIf_stays {test : Token → Bool} (h : test t = false) :
    (liftM (TokenStream.consumeIf test) : Parser (Option Token)).Yields (.ok t :: L) b none
      (.ok t :: L) b := by
  refine yields_lift_bind (peek_yields (Nat.zero_le _) rfl) ?_
  dsimp only
  rw [if_neg (Bool.not_eq_true _ ▸ h)]
  exact .pure none

theorem eatOperator_yields {op : Operator} (h : t.kind.isOperator op = true) :
    (eatOperator op).Yields (.ok t :: L) b true L b :=
  (consumeIf_yields h).bind (.pure _)

theorem eatOperator_stays {op : Operator} (h : t.kind.isOperator op = false) :
    (eatOperator op).Yields (.ok t :: L) b false (.ok t :: L) b :=
  (consumeIf_stays h).bind (.pure _)

theorem expectOperator_yields {op : Operator} (h : t.kind.isOperator op = true) :
    (expectOperator op).Yields (.ok t :: L) b () L b :=
  (eatOperator_yields h).bind (.pure ())

theorem endOfLine_yields (h : t.kind.isNewline = true) :
    endOfLine.Yields (.ok t :: L) b () L b := by
  rintro s hs rfl
  exact run_endOfLine hs h

/-- In front of a token that is no newline there are none to pass over. -/
theorem skipNewlines_yields (b : Builder) (ht : t.kind.isNewline = false) (L : List Step) :
    skipNewlines.Yields (.ok t :: L) b () (.ok t :: L) b := by
  rintro s hs rfl
  have hf : Filled s.steps := by
    rw [hs]
    rintro _ _ ⟨⟩
    exact ht
  obtain ⟨s', hrun, hs', hb', -⟩ := s.skipNewlines_filled hf
  rw [hs] at hrun hs'
  exact ⟨s', hrun, hs', hb'⟩

/-! Values -/

/-- The text goes on with a token, and it is no bracket. -/
def Unindexed (L : List Step) : Prop :=
  ∃ u M, L = .ok u :: M ∧ u.kind.isOperator .leftBracket = false

theorem target_yields {cls : RegisterClass} {number : Nat} (ht : t.kind = .register cls number) :
    target.Yields (.ok t :: L) b (.register (.ofRegisterClass cls) number) L b := by
  have hpeek := peekKind_yields b t L
  rw [ht] at hpeek
  exact hpeek.bind ((advance_yields b t L).bind (.pure _))

theorem value_register {cls : RegisterClass} {number : Nat} (ht : t.kind = .register cls number)
    (hL : Unindexed L) :
    value.Yields (.ok t :: L) b (.target (.register (.ofRegisterClass cls) number)) L b := by
  obtain ⟨u, M, rfl, hu⟩ := hL
  have hpeek := peekKind_yields b t (.ok u :: M)
  have hbracket := atOperator_second b .leftBracket t u M
  have htarget : (do return .target (← target) : Parser Expression).Yields (.ok t :: .ok u :: M) b
      (.target (.register (.ofRegisterClass cls) number)) (.ok u :: M) b :=
    (target_yields ht).bind (.pure _)
  rw [ht] at hpeek
  rw [hu] at hbracket
  refine .nest valueStep_guarded (hpeek.bind ?_)
  cases cls with
  | pmc => exact hbracket.bind htarget
  | _ => exact htarget

theorem value_literal {c : Constant} (ht : literal? t.kind = some c) :
    value.Yields (.ok t :: L) b (.constant c) L b := by
  have hpeek := peekKind_yields b t L
  refine .nest valueStep_guarded (hpeek.bind ?_)
  have hrest : (do let _ ← advance; return .constant c : Parser Expression).Yields (.ok t :: L) b
      (.constant c) L b := (advance_yields b t L).bind (.pure _)
  generalize t.kind = k at ht
  cases k <;> cases ht <;> exact hrest

/-- A key, given how its values are read. -/
theorem key_yields {first : Expression} {more : List Expression}
    (ht : t.kind.isOperator .leftBracket = true) (hfirst : value.Yields L b first L' b)
    (hmore : (Act.iterate (nextEntry value) []).Yields L' b more (.ok u :: L'') b)
    (hu : u.kind.isOperator .rightBracket = true) : key.Yields (.ok t :: L) b ⟨first, more⟩ L'' b :=
  (expectOperator_yields ht).bind
    (hfirst.bind (hmore.bind ((expectOperator_yields hu).bind (.pure _))))

theorem value_keyed {number : Nat} {k : Key} (ht : t.kind = .register .pmc number)
    (hu : u.kind.isOperator .leftBracket = true) (hk : key.Yields (.ok u :: L) b k L' b) :
    value.Yields (.ok t :: .ok u :: L) b
      (.target { Target.register .pmc number with key := some k }) L' b := by
  have hpeek := peekKind_yields b t (.ok u :: L)
  have hbracket := atOperator_second b .leftBracket t u L
  rw [ht] at hpeek
  rw [hu] at hbracket
  refine .nest valueStep_guarded (hpeek.bind (hbracket.bind ((advance_yields b t _).bind ?_)))
  exact hk.bind (.bind (.build rfl) (.pure _))

/-- One more value of a key behind its semicolon. -/
theorem entries_more {e : Expression} {entries all : List Expression}
    (ht : t.kind.isOperator .semicolon = true) (he : value.Yields L b e L' b)
    (hrest : (Act.iterate (nextEntry value) (entries ++ [e])).Yields L' b all L'' b) :
    (Act.iterate (nextEntry value) entries).Yields (.ok t :: L) b all L'' b :=
  .iterate_more (nextEntry_progresses value_shrinks)
    ((eatOperator_yields ht).bind (he.bind (.pure _))) hrest

theorem entries_stop (ht : t.kind.isOperator .semicolon = false) (entries : List Expression) :
    (Act.iterate (nextEntry value) entries).Yields (.ok t :: L) b entries (.ok t :: L) b :=
  .iterate_stop (nextEntry_progresses value_shrinks) ((eatOperator_stays ht).bind (.pure _))

/-! Operands -/

theorem opArgument_value {e : Expression}
    (hname : t.kind.isName = false) (ht : t.kind.isOperator .leftBracket = false)
    (he : value.Yields (.ok t :: L) b e L' b) : opArgument.Yields (.ok t :: L) b e L' b := by
  have hpeek := peekKind_yields b t L
  refine hpeek.bind ?_
  generalize t.kind = k at hname ht
  match k with
  | .identifier | .keyword _ => cases hname
  | .operator op => cases op <;> first | exact he | cases ht
  | .newline | .directive _ | .flag _ | .label | .register .. | .int _ | .num _ | .string _ =>
    exact he

theorem opArgument_key {k : Key} (ht : t.kind = .operator .leftBracket)
    (hk : key.Yields (.ok t :: L) b k L' b) : opArgument.Yields (.ok t :: L) b (.key k) L' b := by
  have hpeek := peekKind_yields b t L
  rw [ht] at hpeek
  exact hpeek.bind (hk.bind (.pure _))

/-- A name with no bracket behind it stands for what the builder takes it for. -/
theorem opArgument_name (ht : t.kind.isName = true) (hL : Unindexed L) :
    opArgument.Yields (.ok t :: L) b (b.identifierOperand t.lexeme) L b := by
  obtain ⟨u, M, rfl, hu⟩ := hL
  have hpeek := peekKind_yields b t (.ok u :: M)
  have hbracket := atOperator_second b .leftBracket t u M
  rw [hu] at hbracket
  have hname : (do
      let name ← advanceText
      let s ← getThe Session
      return s.builder.identifierOperand name : Parser Expression).Yields (.ok t :: .ok u :: M) b
        (b.identifierOperand t.lexeme) (.ok u :: M) b := by
    refine (advanceText_yields b t _).bind ?_
    rintro s hs rfl
    exact ⟨s, rfl, hs, rfl⟩
  refine hpeek.bind ?_
  generalize t.kind = k at ht
  match k with
  | .identifier | .keyword _ => exact hbracket.bind hname

/-- Operands with commas between them. -/
theorem operands_more {e : Expression} {operands all : List Expression}
    (he : opArgument.Yields L b e (.ok t :: L') b) (ht : t.kind.isOperator .comma = true)
    (hrest : (Act.iterate (nextItem .comma opArgument) (operands ++ [e])).Yields L' b all L'' b) :
    (Act.iterate (nextItem .comma opArgument) operands).Yields L b all L'' b :=
  .iterate_more (nextItem_progresses opArgument_shrinks _)
    (he.bind ((eatOperator_yields ht).bind (.pure _))) hrest

theorem operands_stop {e : Expression} (he : opArgument.Yields L b e (.ok t :: L') b)
    (ht : t.kind.isOperator .comma = false) (operands : List Expression) :
    (Act.iterate (nextItem .comma opArgument) operands).Yields L b (operands ++ [e])
      (.ok t :: L') b :=
  .iterate_stop (nextItem_progresses opArgument_shrinks _)
    (he.bind ((eatOperator_stays ht).bind (.pure _)))

theorem opArguments_none (ht : t.kind.isNewline = true) :
    opArguments.Yields (.ok t :: L) b [] (.ok t :: L) b := by
  have hend := atEndOfLine_yields b t L
  rw [ht] at hend
  exact hend.bind (.pure [])

theorem opArguments_some {operands : List Expression} (ht : t.kind.isNewline = false)
    (h : (separated .comma opArgument).Yields (.ok t :: L) b operands L' b) :
    opArguments.Yields (.ok t :: L) b operands L' b := by
  have hend := atEndOfLine_yields b t L
  rw [ht] at hend
  exact hend.bind h

/-! Statements -/

theorem foldl_pushOperand (operands : List Expression) (b : Builder) (i : Instruction)
    (hb : b.pendingInstruction = some i) : operands.foldl Builder.pushOperand b =
      { b with pendingInstruction := some { i with operands := i.operands ++ operands } } := by
  induction operands generalizing b i with
  | nil => rw [List.foldl_nil, List.append_nil, ← hb]
  | cons e operands ih =>
    rw [List.foldl_cons, ih (b.pushOperand e) (i.push e) (by simp [Builder.pushOperand, hb])]
    simp [Builder.pushOperand, Instruction.push]

/-- An opcode with its operands. -/
theorem opStatement_yields {operands : List Expression}
    (hoperands : opArguments.Yields L (b.beginInstruction t.lexeme) operands (.ok u :: L')
      (b.beginInstruction t.lexeme)) (hu : u.kind.isNewline = true)
    (hfinish : Build.finishInstruction.run
      { b with pendingInstruction := some (.of t.lexeme operands) } = (.ok (), b')) :
    opStatement.Yields (.ok t :: L) b () L' b' := by
  have hpush := foldl_pushOperand operands (b.beginInstruction t.lexeme) _ rfl
  refine (advanceText_yields b t L).bind (.bind (.change _) (hoperands.bind (.bind (.change _) ?_)))
  rw [hpush]
  exact (endOfLine_yields hu).bind (.build hfinish)

/-- What begins with a name that is no keyword, and with no operator behind it, is an opcode with
its operands. -/
theorem statement_opcode (ht : t.kind = .identifier) (hu : ∀ op, u.kind ≠ .operator op)
    (h : opStatement.Yields (.ok t :: .ok u :: L) b () L' b') :
    statementOrBlock.Yields (.ok t :: .ok u :: L) b none L' b' := by
  have hpeek := peekKind_yields b t (.ok u :: L)
  have hsecond := peekKind_second b t u L
  rw [ht] at hpeek
  have hname : nameStatement.Yields (.ok t :: .ok u :: L) b () L' b' := by
    refine hsecond.bind ?_
    generalize u.kind = k at hu
    cases k with
    | operator op => exact absurd rfl (hu op)
    | _ => exact h
  exact hpeek.bind (.bind (hpeek.bind hname) (.pure none))

theorem labelledStatement_unlabelled (ht : t.kind ≠ .label)
    (h : statementOrBlock.Yields (.ok t :: L) b none L' b') :
    labelledStatement.Yields (.ok t :: L) b none L' b' := by
  refine (peekKind_yields b t L).bind ?_
  generalize t.kind = k at ht
  cases k with
  | label => exact absurd rfl ht
  | _ => exact h

theorem labelledStatement_labelled (ht : t.kind = .label)
    (hlabel : (Build.setLabel t.lexeme).run b = (.ok (), b')) (hu : u.kind.isNewline = false)
    (h : statementOrBlock.Yields (.ok u :: L) b' none L' b'') :
    labelledStatement.Yields (.ok t :: .ok u :: L) b none L' b'' := by
  have hpeek := peekKind_yields b t (.ok u :: L)
  have hend := atEndOfLine_yields b' u L
  rw [ht] at hpeek
  rw [hu] at hend
  exact hpeek.bind ((advanceText_yields b t _).bind (.bind (.build hlabel) (hend.bind h)))

/-! Lines -/

/-- A line of a body that holds a statement. -/
theorem bodyLine_statement (ht : t.kind = .identifier ∨ t.kind = .label)
    (h : labelledStatement.Yields (.ok t :: L) (b.beginStatement t.line) none L' b') :
    bodyLine.Yields (.ok t :: L) b .body L' b'.dropInstruction := by
  have hnewline : t.kind.isNewline = false := by
    obtain ht | ht := ht <;> rw [ht] <;> rfl
  refine (skipNewlines_yields b hnewline L).bind ((peek_yields (Nat.zero_le _) rfl).bind
    (.bind (.change _) ?_))
  have hend : endStatement.Yields L' b' .body L' b'.dropInstruction :=
    .bind (.change _) (.pure _)
  obtain ht | ht := ht
  · rw [ht]
    exact h.bind hend
  · rw [ht]
    exact h.bind hend

/-- The line that ends a body. -/
theorem bodyLine_end (ht : t.kind = .directive .endSub) (hu : u.kind.isNewline = true) :
    bodyLine.Yields (.ok t :: .ok u :: L) b .top L (b.beginStatement t.line).closeSub.2 := by
  have hnewline : t.kind.isNewline = false := by rw [ht]; rfl
  refine (skipNewlines_yields b hnewline _).bind ((peek_yields (Nat.zero_le _) rfl).bind
    (.bind (.change _) ?_))
  have hend : endSub.Yields (.ok t :: .ok u :: L) (b.beginStatement t.line) .top L
      (b.beginStatement t.line).closeSub.2 :=
    (advance_yields _ t _).bind (.bind (.change _)
      (.bind (.mended (.attempt (endOfLine_yields hu) ())) (.pure _)))
  rw [ht]
  exact hend

theorem subFlags_none (b : Builder) (ht : t.kind.isNewline = true) (L : List Step) :
    subFlags.Yields (.ok t :: L) b () (.ok t :: L) b := by
  have hpeek := peekKind_yields b t L
  have hstop : nextSubFlag.Yields (.ok t :: L) b false (.ok t :: L) b := by
    refine hpeek.bind ?_
    generalize t.kind = k at ht
    cases k with
    | newline => exact .pure false
    | _ => cases ht
  exact .iterate_stop (progresses_of_step size_nextSubFlag) (hstop.bind (.pure _))

/-- The first line of a subroutine without flags. -/
theorem item_sub {name : Token} (ht : t.kind = .directive .sub) (hname : name.kind = .identifier)
    (hu : u.kind.isNewline = true) :
    item.Yields (.ok t :: .ok name :: .ok u :: L) b (some .body) L
      ((b.beginStatement t.line).openSub name.lexeme).2 := by
  have hnewline : t.kind.isNewline = false := by rw [ht]; rfl
  have hsubName : subName.Yields (.ok name :: .ok u :: L) (b.beginStatement t.line) name.lexeme
      (.ok u :: L) (b.beginStatement t.line) := by
    have hpeek := peekKind_yields (b.beginStatement t.line) name (.ok u :: L)
    rw [hname] at hpeek
    exact hpeek.bind (advanceText_yields _ _ _)
  have hheader : subHeader.Yields (.ok name :: .ok u :: L) (b.beginStatement t.line) () L
      ((b.beginStatement t.line).openSub name.lexeme).2 :=
    (Yields.attempt (hsubName.map some) none).bind
      (.bind (.change _) (.attempt ((subFlags_none _ hu L).bind (endOfLine_yields hu)) ()))
  refine (skipNewlines_yields b hnewline _).bind ((peek_yields (Nat.zero_le _) rfl).bind
    (.bind (.change _) ?_))
  rw [ht]
  exact (advance_yields _ t _).bind ((Yields.mended hheader).bind (.pure _))

/-- At the end of the text there is no line. -/
theorem item_none (b : Builder) : item.Yields [] b none [] b := by
  have hskip : skipNewlines.Yields [] b () [] b := by
    rintro s hs rfl
    obtain ⟨s', hrun, hs', hb', -⟩ := s.skipNewlines_filled (by rw [hs]; nofun)
    rw [hs] at hrun hs'
    exact ⟨s', hrun, hs', hb'⟩
  exact hskip.bind ((peek_yields (Nat.zero_le _) rfl).bind (.pure _))

theorem linesFrom_more {p q : Place} (hline : (line p).Yields L b (some q) L' b')
    (h : (linesFrom q).Yields L' b' () L'' b'') : (linesFrom p).Yields L b () L'' b'' := by
  intro s hs hb
  obtain ⟨s', hrun, hs', hb'⟩ := hline.attempt (some p) s hs hb
  rw [run_linesFrom, hrun]
  exact h s' hs' hb'

theorem linesFrom_none {p : Place} (hline : (line p).Yields L b none L' b') :
    (linesFrom p).Yields L b () L' b' := by
  intro s hs hb
  obtain ⟨s', hrun, hs', hb'⟩ := hline.attempt (some p) s hs hb
  exact ⟨s', by rw [run_linesFrom, hrun], hs', hb'⟩

end Parser
end PirFrontend
