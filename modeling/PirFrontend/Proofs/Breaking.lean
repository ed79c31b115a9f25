import PirFrontend.Proofs.Bodies

/-!
A line of a body whose rule breaks. Nothing is built before the line is over, so by then only
problems in it were reported, none of them malformed text, and the line is left in its middle.
-/
namespace PirFrontend

open PirFrontend.Parser (Place Block)

/-- A later builder that has only reported problems that are no malformed text, not too many of
them, and maybe begun an instruction. -/
def Builder.Noted (b b' : Builder) : Prop :=
  ∃ ds i, b' = { b.reported ds with pendingInstruction := i } ∧
    (∀ d ∈ ds, d.kind ≠ .malformed) ∧ b'.Ongoing

namespace Builder.Noted

variable {b b' : Builder}

theorem refl (h : b.Ongoing) : b.Noted b :=
  ⟨[], b.pendingInstruction, by rw [reported_nil], nofun, h⟩

theorem record (h : b.Noted b') {kind : DiagnosticKind} (hk : kind ≠ .malformed)
    {message : String} (hr : (b'.record kind message).overfull = false) :
    b.Noted (b'.record kind message) := by
  obtain ⟨ds, i, rfl, hds, hb⟩ := h
  refine ⟨ds ++ [⟨kind, message, b.line⟩], i, ?_, fun d hd => ?_, hb.record hr⟩
  · rw [← reported_reported]
    rfl
  · obtain hd | hd := List.mem_append.1 hd
    · exact hds d hd
    · rw [List.mem_singleton.1 hd]
      exact hk

/-- When the broken rule is mended, one problem more was reported, and it is malformed text. -/
theorem mend {n : Nat} {b'' : Builder} {e : ParseError} (h : b.Noted b') (hn : b.line = n)
    (he : ∀ line ∈ e.line?, line = n) (hrun : (Build.mend e).run b' = (.ok (), b'')) :
    ∃ ds, b''.dropInstruction = (b.reported (ds ++ [⟨.malformed, e.message, n⟩])).dropInstruction ∧
      (b.reported (ds ++ [⟨.malformed, e.message, n⟩])).overfull = false ∧
      ∀ d ∈ ds, d.kind ≠ .malformed := by
  obtain ⟨ds, i, rfl, hds, -⟩ := h
  have hline : e.line?.getD b.line = n := by
    cases hl : e.line? with
    | none => exact hn
    | some line => exact he line hl
  subst hn
  rw [Build.run_mend] at hrun
  dsimp only [reported] at hrun
  rw [hline] at hrun
  -- The problem was reported, else mending would not have succeeded.
  obtain ⟨-, hfew, rfl⟩ := Build.run_report_ok hrun
  refine ⟨ds, ?_⟩
  rw [← reported_reported]
  exact ⟨rfl, hfew, hds⟩

end Builder.Noted

/-- A label reports no malformed text. -/
theorem Build.setLabel_reports (name : String) (b : Builder) : (setLabel name).Leaves b fun b' =>
    ∃ ds, b'.diagnostics = b.diagnostics ++ ds ∧ ∀ d ∈ ds, d.kind ≠ .malformed := by
  refine Leaves.bind (currentSub_leaves (Q := (b = ·)) rfl) ?_
  intro s _ rfl
  split
  · refine .report fun _ => ⟨_, rfl, fun d hd => ?_⟩
    rw [List.mem_singleton.1 hd]
    nofun
  · exact .modify ⟨[], (List.append_nil _).symm, nofun⟩

/-- The tokens of a line with a number, and the one that ends it. -/
structure OneLine (n : Nat) (ts : List Token) (nl : Token) : Prop where
  inline : ∀ t ∈ ts, t.line = n ∧ t.kind.isNewline = false
  line : nl.line = n
  newline : nl.kind.isNewline = true

/-- A line has a first token, be it the one that ends it. -/
theorem Pairing.Row.exists_head (ts : List Token) (nl : Token) (C : List Step) :
    ∃ u L, Row.steps ts nl C = .ok u :: L := by
  cases ts with
  | nil => exact ⟨nl, C, rfl⟩
  | cons u us => exact ⟨u, Row.steps us nl C, rfl⟩

theorem OneLine.tail {n : Nat} {t nl : Token} {ts : List Token} (h : OneLine n (t :: ts) nl) :
    OneLine n ts nl :=
  ⟨fun u hu => h.inline u (List.mem_cons_of_mem t hu), h.line, h.newline⟩

namespace Pairing

variable {α : Type} {n : Nat} {b c : Builder} {C : List Step} {p : Place}

/-- One run next to itself, on a line with number `n` that leaves `C` behind it, until something is
built. -/
def lone (n : Nat) (b : Builder) (C : List Step) : Pairing where
  tok t u := t = u ∧ t.line = n
  err e e' := e = e' ∧ ∀ line ∈ e.line?, line = n
  start L M := L = C ∧ M = C
  askew _ _ := False
  rel _ c d := c = d ∧ b.Noted c
  past _ c d := c = d
  stopped _ _ _ _ := True
  aside _ _ := False
  stray _ _ _ := True

/-- What a line builds when it is over does not concern it. -/
theorem lone_keeps {x : Build α} (c : Builder) : (lone n b C).Keeps p x c c := by
  -- Once something is built, the two runs are just one run and go on as they like.
  unfold Keeps
  generalize x.run c = r
  obtain ⟨f | a, c'⟩ := r
  · exact .stopped trivial
  · exact .ok rfl

instance : (lone n b C).Readable where
  like h := by
    obtain ⟨rfl, -⟩ := h
    exact ⟨rfl, rfl⟩
  unexpected expected h := by
    obtain ⟨rfl, hline⟩ := h
    refine ⟨rfl, ?_⟩
    rintro _ ⟨⟩
    exact hline
  endOfInput _ := ⟨rfl, nofun⟩
  alike h := h.1 ▸ ⟨rfl, rfl, rfl, rfl, rfl, rfl⟩
  passed h := h.1
  report {p c d kind} message hk h := by
    obtain ⟨rfl, h⟩ := h
    generalize hr : (Build.report kind message).run c = r
    obtain ⟨f | _, c'⟩ := r
    · exact .stopped trivial
    · obtain ⟨-, hfew, rfl⟩ := Build.run_report_ok hr
      exact .ok ⟨rfl, h.record hk hfew⟩

theorem lone_buildable (hC : ∀ f L, C ≠ .error f :: L) : (lone n b C).Buildable where
  glimpse {L M} h := by
    obtain ⟨rfl, rfl⟩ := h
    left
    cases M with
    | nil => exact .nil
    | cons step L =>
      cases step with
      | ok t => exact .token rfl
      | error f => exact absurd rfl (hC f L)
  strays _ := trivial
  astray_left _ _ h _ := h.elim
  astray_right _ _ h _ := h.elim
  instruction {c d} i h := by
    obtain ⟨rfl, ds, j, rfl, hds, hongoing⟩ := h
    exact ⟨rfl, ds, i, rfl, hds, hongoing.of_same ⟨rfl, rfl, rfl⟩⟩
  emit {c d s} h _ := h.1 ▸ lone_keeps c
  beginBlock k h _ := h.1 ▸ rfl
  declareConstant {p c d} _ _ h := h.1 ▸ lone_keeps c
  declareGlobalConstant {p c d} _ _ h := h.1 ▸ lone_keeps c
  declareLocal {p c d} _ _ _ _ h := h ▸ lone_keeps c
  addParameter {c d} _ _ _ _ _ h := h.1 ▸ lone_keeps c
  addLexical {c d t} _ h _ _ := h.1 ▸ lone_keeps c

theorem lone_mid {ts : List Token} {nl : Token} (h : OneLine n ts nl) :
    (lone n b C).mid (Row.steps ts nl C) (Row.steps ts nl C) := by
  induction ts with
  | nil => exact .newline ⟨rfl, h.line⟩ h.newline ⟨rfl, rfl⟩
  | cons t ts ih =>
    obtain ⟨ht, hk⟩ := h.inline t List.mem_cons_self
    exact .token ⟨rfl, ht⟩ hk (ih h.tail)

/-- What a rule leaves that breaks on its line. -/
theorem Runs.of_lone {cr : Prop} {x : Parser α} {s s' : Session} {e : ParseError}
    {Q : α → α → Session → Session → Prop} (h : (lone n b C).Runs cr p x x s s Q)
    (hrun : x.run s = (.error (.broken e), s')) :
    b.Noted s'.builder ∧ ∀ line ∈ e.line?, line = n := by
  unfold Runs at h
  rw [hrun] at h
  cases h with
  | broken _ _ he hm => exact ⟨hm.rel.2, he.2⟩
  | crossed _ _ _ _ _ ha _ => exact ha.elim

end Pairing

/-! Lines of a body -/

namespace Parser

variable {α β : Type} {s s' s₁ : Session} {t u : Token} {L : List Step} {e : ParseError}
  {b : Builder}

/-- The rule is never broken; it succeeds or has to stop. -/
def Unbroken (x : Parser α) : Prop := ∀ s e s', x.run s ≠ (.error (.broken e), s')

theorem Unbroken.pure (a : α) : Unbroken (pure a : Parser α) := by
  intro s e s' h
  rw [run_pure] at h
  cases h

theorem run_change (f : Builder → Builder) (s : Session) :
    (Act.change f : Parser Unit).run s = (.ok (), { s with builder := f s.builder }) := rfl

theorem Unbroken.change (f : Builder → Builder) : Unbroken (Act.change f) := by
  intro s e s' h
  rw [run_change] at h
  cases h

theorem Unbroken.build (x : Build α) : Unbroken (liftM x) := by
  intro s e s' h
  rw [Pairing.run_lift_build] at h
  generalize x.run s.builder = r at h
  obtain ⟨f | a, b⟩ := r <;> cases h

theorem Unbroken.mended (x : Mended α) : Unbroken (liftM x) := by
  intro s e s' h
  rw [Pairing.run_lift_mended] at h
  generalize x.run s = r at h
  obtain ⟨f | a, b⟩ := r <;> cases h

theorem Unbroken.bind {x : Parser α} {f : α → Parser β} (hx : Unbroken x)
    (hf : ∀ a, Unbroken (f a)) : Unbroken (x >>= f) := by
  intro s e s' h
  rw [run_bind] at h
  cases hr : x.run s with
  | mk r s₁ =>
  rw [hr] at h
  obtain ⟨e' | f'⟩ | a := r
  · exact hx s e' s₁ hr
  · cases h
  · exact hf a s₁ e s' h

/-- If nothing behind a rule is ever broken, the rule is. -/
theorem run_bind_broken {x : Parser α} {f : α → Parser β} (hf : ∀ a, Unbroken (f a))
    (h : (x >>= f).run s = (.error (.broken e), s')) : x.run s = (.error (.broken e), s') := by
  rw [run_bind] at h
  cases hr : x.run s with
  | mk r s₁ =>
  rw [hr] at h
  obtain e' | a := r
  · cases h
    rfl
  · exact absurd h (hf a s₁ e s')

theorem unbroken_endStatement : Unbroken endStatement :=
  .bind (.change _) fun _ => .pure _

/-- What is behind `.end` is mended there. -/
theorem unbroken_endOfSub : Unbroken (do
    Act.change (·.closeSub.2)
    Mended.attempt endOfLine ()
    pure Place.top) :=
  .bind (.change _) fun _ => .bind (.mended _) fun _ => .pure _

/-- A `.sub` in a body is reported and left unread. -/
theorem unbroken_nestedSub : Unbroken (do
    Build.malformed "syntax error, unexpected '.sub', expecting '.end'"
    Act.change (·.closeSub.2)
    pure Place.top) :=
  .bind (.build _) fun _ => .bind (.change _) fun _ => .pure _

/-- What ends the line behind a statement is not broken. -/
theorem unbroken_behindStatement (block : Option Block) : Unbroken (
    match block with
    | some b => pure (Place.block b)
    | none => endStatement) := by
  cases block with
  | none => exact unbroken_endStatement
  | some b => exact .pure _

/-- Taking a token that is there. -/
theorem run_advance (h : s.steps = .ok t :: L) :
    ∃ s', advance.run s = (.ok t, s') ∧ s'.steps = L ∧ s'.builder = s.builder := by
  obtain ⟨s', hrun, hs, hb, -⟩ := s.run_next
  rw [h] at hrun hs
  refine ⟨s', ?_, hs, hb⟩
  unfold advance
  rw [run_bind_ok hrun]
  rfl

theorem run_peekKind (h : s.steps = .ok t :: L) :
    ∃ s', (peekKind 0).run s = (.ok (some t.kind), s') ∧ s'.steps = .ok t :: L ∧
      s'.builder = s.builder := by
  obtain ⟨s', hrun, hs, hb, -⟩ := s.run_peek (Nat.zero_le _)
  rw [h] at hrun hs
  refine ⟨s', ?_, hs, hb⟩
  unfold peekKind
  rw [run_bind_ok hrun]
  rfl

/-- The first token of a line, behind the empty lines in front of it. -/
theorem run_first (h : s.steps = .ok t :: L) (ht : t.kind.isNewline = false) :
    ∃ s₁ s₂, skipNewlines.run s = (.ok (), s₁) ∧
      (liftM (TokenStream.peek 0) : Parser (Option Token)).run s₁ = (.ok (some t), s₂) ∧
      s₂.steps = .ok t :: L ∧ s₂.builder = s.builder := by
  have hf : Filled s.steps := by
    rw [h]
    rintro _ _ ⟨⟩
    exact ht
  obtain ⟨s₁, hskip, hs₁, hb₁, -⟩ := s.skipNewlines_filled hf
  rw [h] at hskip hs₁
  obtain ⟨s₂, hpeek, hs₂, hb₂, -⟩ := s₁.run_peek (Nat.zero_le _)
  rw [hs₁] at hpeek hs₂
  exact ⟨s₁, s₂, hskip, hpeek, hs₂, hb₂.trans hb₁⟩

/-- Ending a line where it ends. -/
theorem run_endOfLine (h : s.steps = .ok t :: L) (ht : t.kind.isNewline = true) :
    ∃ s', endOfLine.run s = (.ok (), s') ∧ s'.steps = L ∧ s'.builder = s.builder := by
  obtain ⟨s', hrun, hs, hb, -⟩ := s.run_eatNewline
  rw [h] at hrun hs
  simp only [takeNewline, ht, if_true] at hrun hs
  refine ⟨s', ?_, hs, hb⟩
  unfold endOfLine
  rw [run_bind_ok hrun]
  rfl

/-- Behind a label a line is over or a statement follows. -/
theorem run_labelled (h : s.steps = .ok t :: .ok u :: L) (ht : t.kind = .label) :
    match (Build.setLabel t.lexeme).run s.builder with
    | (.ok _, b) => ∃ s', s'.steps = .ok u :: L ∧ s'.builder = b ∧ labelledStatement.run s =
        (if u.kind.isNewline then do endOfLine; pure none else statementOrBlock).run s'
    | (.error f, _) => ∃ s', labelledStatement.run s = (.error (.fatal f), s') := by
  obtain ⟨s₁, hpeek, hs₁, hb₁⟩ := run_peekKind h
  obtain ⟨s₂, hadvance, hs₂, hb₂⟩ := run_advance hs₁
  have htext : advanceText.run s₁ = (.ok t.lexeme, s₂) := by
    unfold advanceText
    rw [run_bind_ok hadvance]
    rfl
  unfold labelledStatement
  rw [run_bind_ok hpeek, ht]
  dsimp only
  rw [run_bind_ok htext, run_bind, Pairing.run_lift_build, hb₂, hb₁]
  -- A label may be one problem too many; then the run stops here.
  generalize (Build.setLabel t.lexeme).run s.builder = r
  obtain ⟨f | a, b⟩ := r
  · exact ⟨_, rfl⟩
  · obtain ⟨s₃, hkind, hs₃, hb₃⟩ := run_peekKind (s := { s₂ with builder := b }) hs₂
    refine ⟨s₃, hs₃, hb₃, ?_⟩
    unfold atEndOfLine
    dsimp only
    rw [run_bind, run_bind_ok hkind]
    simp only [run_pure, Option.all_some]

theorem labelledStatement_broken (h : s.steps = .ok t :: .ok u :: L)
    (hrun : labelledStatement.run s = (.error (.broken e), s₁)) :
    ∃ s', statementOrBlock.run s' = (.error (.broken e), s₁) ∧
      (t.kind ≠ .label ∧ s'.steps = s.steps ∧ s'.builder = s.builder ∨
        t.kind = .label ∧ s'.steps = .ok u :: L ∧
          (Build.setLabel t.lexeme).run s.builder = (.ok (), s'.builder)) := by
  by_cases ht : t.kind = .label
  · have hlabel := run_labelled h ht
    generalize (Build.setLabel t.lexeme).run s.builder = r at hlabel ⊢
    obtain ⟨f | a, b⟩ := r
    · obtain ⟨s', hs'⟩ := hlabel
      cases hs'.symm.trans hrun
    · obtain ⟨s', hs', rfl, hrest⟩ := hlabel
      rw [hrun] at hrest
      split at hrest
      -- A label alone on its line does not break.
      next hu =>
        obtain ⟨s₂, hend, -, -⟩ := run_endOfLine hs' hu
        rw [run_bind_ok hend] at hrest
        cases hrest
      next => exact ⟨s', hrest.symm, .inr ⟨ht, hs', rfl⟩⟩
  · obtain ⟨s', hpeek, hs', hb⟩ := run_peekKind h
    unfold labelledStatement at hrun
    rw [run_bind_ok hpeek] at hrun
    refine ⟨s', ?_, .inl ⟨ht, hs'.trans h.symm, hb⟩⟩
    split at hrun
    next heq => exact absurd (Option.some.inj heq) ht
    next => exact hrun

/-- A line of a body that breaks does so in a parameter or in a statement, maybe behind a label. -/
theorem bodyLine_broken (h : s.steps = .ok t :: .ok u :: L) (ht : t.kind.isNewline = false)
    (hrun : (line .body).run s = (.error (.broken e), s₁)) :
    ¬Outward s.steps ∧ ∃ s',
      (parameter.run s' = (.error (.broken e), s₁) ∧ t.kind = .directive .param ∨
        statementOrBlock.run s' = (.error (.broken e), s₁)) ∧
      (t.kind ≠ .label ∧ s'.steps = s.steps ∧ s'.builder = s.builder.beginStatement t.line ∨
        t.kind = .label ∧ s'.steps = .ok u :: L ∧
          (Build.setLabel t.lexeme).run (s.builder.beginStatement t.line) =
            (.ok (), s'.builder)) := by
  obtain ⟨s₂, s₃, hskip, hpeek, hs₃, hb₃⟩ := run_first h ht
  have hbody : bodyLine.run s = (.error (.broken e), s₁) :=
    run_bind_broken (f := fun a => pure (some a)) (fun _ => .pure _) hrun
  unfold bodyLine at hbody
  rw [run_bind_ok hskip, run_bind_ok hpeek] at hbody
  dsimp only at hbody
  rw [run_bind_ok (run_change _ _), hb₃] at hbody
  generalize hs' : (⟨s₃.tokens, s.builder.beginStatement t.line⟩ : Session) = s' at hbody
  have hb' : s'.builder = s.builder.beginStatement t.line := hs' ▸ rfl
  replace hs₃ : s'.steps = .ok t :: .ok u :: L := hs' ▸ hs₃
  split at hbody
  next hk =>
    obtain ⟨s₄, hadvance, -, -⟩ := run_advance hs₃
    unfold endSub at hbody
    rw [run_bind_ok hadvance] at hbody
    exact absurd hbody (unbroken_endOfSub _ _ _)
  next hk => exact absurd hbody (unbroken_nestedSub _ _ _)
  next hk =>
    refine ⟨?_, s', .inl ⟨run_bind_broken (fun _ => unbroken_endStatement) hbody, hk⟩,
      .inl ⟨?_, hs₃.trans h.symm, hb'⟩⟩
    · intro hout
      obtain hout | hout := hout t _ h
      · cases hk.symm.trans hout
      · cases hk.symm.trans hout
    · rw [hk]
      nofun
  next hend hsub _ =>
    refine ⟨fun hout => (hout t _ h).elim hend hsub, ?_⟩
    -- What ends the line behind a statement cannot break, so the statement did.
    have hlabelled : labelledStatement.run s' = (.error (.broken e), s₁) :=
      run_bind_broken unbroken_behindStatement hbody
    obtain ⟨s'', hbroken, hor⟩ := labelledStatement_broken hs₃ hlabelled
    refine ⟨s'', .inr hbroken, ?_⟩
    rw [h, ← hb']
    obtain ⟨hlabel, hs'', hb''⟩ | ⟨hlabel, hs'', hset⟩ := hor
    · exact .inl ⟨hlabel, hs''.trans hs₃, hb''⟩
    · exact .inr ⟨hlabel, hs'', hset⟩

/-- A line of a body with nothing but a label. -/
theorem run_labelLine {nl : Token} (h : s.steps = .ok t :: .ok nl :: L) (ht : t.kind = .label)
    (hnl : nl.kind.isNewline = true) :
    match (Build.setLabel t.lexeme).run (s.builder.beginStatement t.line) with
    | (.ok _, b) => ∃ s', (line .body).run s = (.ok (some .body), s') ∧ s'.steps = L ∧
        s'.builder = b.dropInstruction
    | (.error f, _) => ∃ s', (line .body).run s = (.error (.fatal f), s') := by
  -- The first token is seen twice: to tell the line from others, and to tell that it has a label.
  obtain ⟨s₂, s₃, hskip, hpeek, hs₃, hb₃⟩ := run_first h (by rw [ht]; rfl)
  have hlabelled := run_labelled (s := ⟨s₃.tokens, s.builder.beginStatement t.line⟩) hs₃ ht
  show match (Build.setLabel t.lexeme).run (s.builder.beginStatement t.line) with
    | (.ok _, b) => ∃ s', (some <$> bodyLine : Parser (Option Place)).run s = _ ∧ _
    | (.error f, _) => ∃ s', (some <$> bodyLine : Parser (Option Place)).run s = _
  unfold bodyLine
  rw [run_map, run_bind_ok hskip, run_bind_ok hpeek]
  dsimp only at hlabelled ⊢
  rw [run_bind_ok (run_change _ _), hb₃, ht]
  dsimp only
  generalize (Build.setLabel t.lexeme).run (s.builder.beginStatement t.line) = r at hlabelled ⊢
  obtain ⟨f | a, b⟩ := r
  · obtain ⟨s', hrun⟩ := hlabelled
    exact ⟨s', by rw [run_bind_error hrun]⟩
  · obtain ⟨s', hs', hb', hrun⟩ := hlabelled
    obtain ⟨s'', hend, hs'', hb''⟩ := run_endOfLine hs' hnl
    rw [if_pos hnl, run_bind_ok hend] at hrun
    refine ⟨{ s'' with builder := s''.builder.dropInstruction }, ?_, hs'', ?_⟩
    · rw [run_bind_ok hrun]
      rfl
    · rw [hb'', hb']

/-- A rule of a statement that breaks on its line has built nothing. -/
theorem noted_of_broken {n : Nat} {ts : List Token} {nl : Token} {C : List Step}
    (hline : OneLine n ts nl) (hC : ∀ f L, C ≠ .error f :: L)
    (h : s.steps = Pairing.Row.steps ts nl C) (hs : s.builder.Ongoing)
    (hp : s.builder.pendingInstruction = none)
    (hrun : parameter.run s = (.error (.broken e), s₁) ∧ ts.head?.map (·.kind) =
        some (.directive .param) ∨
      statementOrBlock.run s = (.error (.broken e), s₁)) :
    s.builder.Noted s₁.builder ∧ ∀ line ∈ e.line?, line = n := by
  have := Pairing.lone_buildable (n := n) (b := s.builder) hC
  have hmid : (Pairing.lone n s.builder C).Mid .body [] s s :=
    ⟨⟨rfl, .refl hs⟩, h ▸ Pairing.lone_mid hline, trivial⟩
  -- The run next to itself shows what was built by the time it broke.
  obtain ⟨hrun, hhead⟩ | hrun := hrun
  · have hahead : Ahead [.directive .param] s.steps := by
      rw [h]
      cases ts with
      | nil => cases hhead
      | cons t ts => exact ⟨Option.some.inj hhead, trivial⟩
    have hparam : (Pairing.lone n s.builder C).Completes False .body parameter s s :=
      Pairing.parameter_completes ⟨hmid.rel, hmid.steps, hahead⟩ rfl
    exact hparam.of_lone hrun
  · exact (Pairing.statementOrBlock_runs hmid hp).of_lone hrun

/-- What is left of a line of a body that breaks: its label, and problems that were reported. -/
theorem bodyLine_leaves {n : Nat} {ts : List Token} {nl : Token} {C : List Step}
    (hline : OneLine n (t :: ts) nl) (hC : ∀ f L, C ≠ .error f :: L)
    (h : s.steps = Pairing.Row.steps (t :: ts) nl C) (hs : s.builder.Ongoing)
    (hrun : (line .body).run s = (.error (.broken e), s₁)) :
    (∀ line ∈ e.line?, line = n) ∧ ∃ b,
      b.Noted s₁.builder ∧ b.line = n ∧
      (t.kind ≠ .label ∧ b = s.builder.beginStatement t.line ∨ t.kind = .label ∧
        (Build.setLabel t.lexeme).run (s.builder.beginStatement t.line) = (.ok (), b)) := by
  obtain ⟨htn, htk⟩ := hline.inline t List.mem_cons_self
  obtain ⟨u, L, hu⟩ := Pairing.Row.exists_head ts nl C
  have hsteps : s.steps = .ok t :: .ok u :: L := by
    rw [h, ← hu]
    rfl
  have hbegun : (s.builder.beginStatement t.line).Ongoing := hs.of_same ⟨rfl, rfl, rfl⟩
  obtain ⟨-, s', hbroken, ⟨hk, hs', hb'⟩ | ⟨hk, hs', hset⟩⟩ := bodyLine_broken hsteps htk hrun
  -- Without a label the statement is all that there is.
  · obtain ⟨hnoted, he⟩ := noted_of_broken hline hC (hs'.trans h) (hb' ▸ hbegun) (hb' ▸ rfl)
      (hbroken.imp_left fun ⟨hp, hk⟩ => ⟨hp, congrArg some hk⟩)
    exact ⟨he, _, hnoted, hb' ▸ htn, .inl ⟨hk, hb'⟩⟩
  · obtain ⟨hpending, hnumber, hongoing⟩ := Build.setLabel_leaves t.lexeme _ _ hset
    obtain ⟨hnoted, he⟩ := noted_of_broken hline.tail hC (hs'.trans hu.symm) (hongoing hbegun)
      hpending (hbroken.imp_left fun ⟨_, hparam⟩ => by
        rw [hk] at hparam
        cases hparam)
    exact ⟨he, _, hnoted, hnumber.trans htn, .inr ⟨hk, hset⟩⟩

end Parser
end PirFrontend
