import PirFrontend.Proofs.Joins

/-!
Two runs whose texts part at a fault. Reading goes on behind the fault at once if the line in front
of it had looked that far when it broke. Otherwise the line with the fault is dropped.
-/
namespace PirFrontend

open PirFrontend.Parser (Place Block)

/-- A line that is read from here on is broken, and when it is mended `L` is left. -/
inductive Parser.MendsOnto (L : List Step) : Place → Session → Prop
  | here {p : Place} {s s' : Session} {e : ParseError} :
      (line p).run s = (.error (.broken e), s') → afterLine s'.steps = L → MendsOnto L p s
  | later {p q : Place} {s s' : Session} :
      (Mended.attempt (line p) (some p)).run s = (.ok (some q), s') → MendsOnto L q s' →
      MendsOnto L p s

namespace Parser

variable {L : List Step} {p q : Place} {s s' : Session}

theorem Reaches.follows (h : Reaches p s q s') : s.tokens.Follows s'.tokens := by
  induction h with
  | refl => exact .refl _
  | line hrun _ ih => exact (attempt_follows hrun).trans ih
  | blank hF _ _ ih => exact hF.trans ih

theorem MendsOnto.congr (h : MendsOnto L p s) (hrun : (line p).run s' = (line p).run s) :
    MendsOnto L p s' := by
  cases h with
  | here hbroken hL => exact .here (hrun.trans hbroken) hL
  | later hok h =>
    refine .later ?_ h
    rw [← hok, Mended.run_attempt, Mended.run_attempt, hrun]

theorem Reaches.mendsOnto (h : Reaches p s q s') (h' : MendsOnto L q s') : MendsOnto L p s := by
  induction h with
  | refl => exact h'
  | line hrun _ ih => exact .later hrun (ih h')
  | blank _ hrun _ ih => exact (ih h').congr hrun

/-- A line that was broken was mended. -/
theorem attempt_broken {e : ParseError} {a : Option Place} {s₁ : Session}
    (hrun : (line p).run s = (.error (.broken e), s₁))
    (h : (Mended.attempt (line p) (some p)).run s = (.ok a, s')) :
    ∃ b, (Build.mend e).run s₁.builder = (.ok (), b) ∧ a = some p ∧
      s' = ⟨s₁.tokens.skipLine.2, b.dropInstruction⟩ := by
  rw [Mended.run_attempt, hrun] at h
  dsimp only at h
  generalize (Build.mend e).run s₁.builder = r at h ⊢
  obtain ⟨f | _, b⟩ := r
  · cases h
  · cases h
    exact ⟨b, rfl, rfl, rfl⟩

/-- A line that is mended goes on behind what it had read. -/
theorem steps_mended {e : ParseError} {a : Option Place} {s₁ : Session}
    (hrun : (line p).run s = (.error (.broken e), s₁))
    (h : (Mended.attempt (line p) (some p)).run s = (.ok a, s')) :
    s'.steps = afterLine s₁.steps := by
  obtain ⟨b, -, -, rfl⟩ := attempt_broken hrun h
  exact s₁.tokens.steps_skipLine

/-- When more than `L` is left, no line was mended onto `L` yet. -/
theorem MendsOnto.of_reaches (h : MendsOnto L p s) (hr : Reaches p s q s')
    (hlt : L.length < s'.steps.length) : MendsOnto L q s' := by
  induction hr with
  | refl => exact h
  | blank _ hrun _ ih => exact ih (h.congr hrun.symm) hlt
  | line hrun hr ih =>
    cases h with
    | here hbroken hL =>
      have hle := hr.follows.steps_le
      rw [← Session.steps, ← Session.steps, steps_mended hbroken hrun, hL] at hle
      omega
    | later hok h =>
      rw [hrun] at hok
      cases hok
      exact ih h hlt

theorem MendsOnto.length_le (h : MendsOnto L p s) : L.length ≤ s.steps.length := by
  induction h with
  | @here p s s' e hrun hL =>
    have hadv := line_advances p s
    rw [hrun] at hadv
    exact hL ▸ Nat.le_of_lt hadv.2
  | later hok _ ih => exact Nat.le_trans ih (attempt_follows hok).steps_le

end Parser

/-! A fault in front -/

/-- A line that begins with a fault is broken by it. -/
theorem run_line_fault {s : Session} {f : LexFault} {L : List Step} (h : s.steps = .error f :: L)
    (p : Place) : ∃ s', (Parser.line p).run s = (.error (.broken (.ofFault f)), s') ∧
      s'.steps = L ∧ s'.builder = s.builder := by
  have hf : Filled s.steps := by
    rw [h]
    nofun
  obtain ⟨s', hskip, hs, hb, -⟩ := s.skipNewlines_filled hf
  rw [h] at hskip hs
  refine ⟨s', ?_, hs, hb⟩
  cases p with
  | top => exact run_bind_error hskip
  | body =>
    show (some <$> Parser.bodyLine : Parser (Option Place)).run s = _
    unfold Parser.bodyLine
    rw [run_map, run_bind_error hskip]
  | block b =>
    unfold Parser.line Parser.blockLine
    exact run_bind_error (run_bind_error hskip)

theorem not_mendsOnto_fault {s : Session} {f : LexFault} {L : List Step} {p : Place}
    (h : s.steps = .error f :: L) (hL : L ≠ []) : ¬Parser.MendsOnto L p s := by
  have hlt := length_afterLine_lt hL
  obtain ⟨s₁, hrun, hs₁, -⟩ := run_line_fault h p
  rintro (⟨hbroken, hafter⟩ | ⟨hok, hlater⟩)
  · rw [hrun] at hbroken
    cases hbroken
    rw [hs₁] at hafter
    rw [hafter] at hlt
    exact Nat.lt_irrefl _ hlt
  · have hle := hlater.length_le
    rw [Parser.steps_mended hrun hok, hs₁] at hle
    omega

/-- Mending changes the diagnostics of one builder only. -/
theorem twin_mend_left {o : BuildOptions} {p : Place} {b b' c : Builder} {e : ParseError}
    (h : b.Twin .built o p c) (hrun : (Build.mend e).run b = (.ok (), b')) :
    b'.Twin .built o p c := by
  rw [Build.run_mend] at hrun
  have hlines : (b.setLine (e.line?.getD b.line)).Twin .built o p (c.setLine c.line) :=
    h.setLines trivial
  have hleft := Pairing.twins_astray_left (A := .built) hlines .malformed e.message
  rw [← Build.malformed, hrun] at hleft
  exact hleft

/-- Builders that are alike are still alike when both are mended, whatever the problems were. -/
theorem twin_mended {o : BuildOptions} {p : Place} {b b' c c' : Builder} {e e' : ParseError}
    (h : b.Twin .built o p c) (hb : (Build.mend e).run b = (.ok (), b'))
    (hc : (Build.mend e').run c = (.ok (), c')) :
    b'.dropInstruction.Twin .built o p c'.dropInstruction := by
  have hlines : (b.setLine (e.line?.getD b.line)).Twin .built o p
      (c.setLine (e'.line?.getD c.line)) := h.setLines trivial
  have hmend : (Pairing.twins .built o (fun _ _ => True) fun _ _ => True).Agree
      (fun _ => Builder.Twin .built o p)
      ((Build.report .malformed e.message).run (b.setLine (e.line?.getD b.line)))
      ((Build.report .malformed e'.message).run (c.setLine (e'.line?.getD c.line))) :=
    Pairing.twins_report hlines trivial
  rw [Build.run_mend] at hb hc
  rw [← Build.malformed, ← Build.malformed, hb, hc] at hmend
  cases hmend with
  | ok h => exact Pairing.twins_drop h

/-! What waits when a line begins -/

theorem Builder.closeSub_drop {b : Builder} (h : b.current.isSome) :
    b.dropInstruction.closeSub = b.closeSub := by
  obtain ⟨sub, hsub⟩ := Option.isSome_iff_exists.1 h
  simp [closeSub, dropInstruction, hsub]

theorem Build.run_report_drop (kind : DiagnosticKind) (message : String) (b : Builder) :
    (report kind message).run b.dropInstruction =
      (((report kind message).run b).1, ((report kind message).run b).2.dropInstruction) := by
  rw [run_report, run_report]
  have ha : b.dropInstruction.aborted = b.aborted := rfl
  have hr : (b.dropInstruction.record kind message).overfull = (b.record kind message).overfull :=
    rfl
  rw [ha, hr]
  split
  · rfl
  · split <;> rfl

theorem Build.run_mend_drop (e : ParseError) (b : Builder) :
    (mend e).run b.dropInstruction =
      (((mend e).run b).1, ((mend e).run b).2.dropInstruction) := by
  rw [run_mend, run_mend]
  exact run_report_drop .malformed e.message (b.setLine (e.line?.getD b.line))

/-- The rule only reads: it neither changes the builder nor depends on it. -/
def Parser.OnlyReads {α : Type} (x : Parser α) : Prop :=
  ∀ ts, ∃ r ts', ∀ b, x.run ⟨ts, b⟩ = (r, ⟨ts', b⟩)

namespace Parser

theorem OnlyReads.lift {α : Type} (x : Reading α) : OnlyReads (liftM x) := by
  intro ts
  cases hx : x.run ts with
  | mk r ts' =>
  cases r with
  | ok a =>
    refine ⟨.ok a, ts', fun b => ?_⟩
    show read x ⟨ts, b⟩ = _
    simp only [read, hx]
  | error e =>
    refine ⟨.error (.broken e), ts', fun b => ?_⟩
    show read x ⟨ts, b⟩ = _
    simp only [read, hx]

theorem OnlyReads.bind {α β : Type} {x : Parser α} {f : α → Parser β} (hx : OnlyReads x)
    (hf : ∀ a, OnlyReads (f a)) : OnlyReads (x >>= f) := by
  intro ts
  obtain ⟨e | a, ts₁, h⟩ := hx ts
  · exact ⟨.error e, ts₁, fun b => run_bind_error (h b)⟩
  · obtain ⟨r, ts₂, h'⟩ := hf a ts₁
    exact ⟨r, ts₂, fun b => (run_bind_ok (h b)).trans (h' b)⟩

theorem OnlyReads.pure {α : Type} (a : α) : OnlyReads (pure a : Parser α) :=
  fun ts => ⟨.ok a, ts, fun _ => rfl⟩

theorem onlyReads_skipNewlines : OnlyReads skipNewlines := by
  have heat : OnlyReads eatNewline := (OnlyReads.lift _).bind fun _ => .pure _
  intro ts
  induction hn : ts.size using Nat.strongRecOn generalizing ts with
  | ind n ih =>
  obtain ⟨r, ts₁, h⟩ := heat ts
  have hrun (b : Builder) := Session.run_skipNewlines ⟨ts, b⟩
  simp only [h] at hrun
  obtain e | (_ | _) := r
  · exact ⟨.error e, ts₁, hrun⟩
  · exact ⟨.ok (), ts₁, hrun⟩
  · by_cases hlt : ts₁.size < ts.size
    · obtain ⟨r, ts₂, h'⟩ := ih _ (hn ▸ hlt) ts₁ rfl
      exact ⟨r, ts₂, fun b => (hrun b).trans ((if_pos hlt).trans (h' b))⟩
    · exact ⟨.error stuck, ts₁, fun b => (hrun b).trans (if_neg hlt)⟩

end Parser

/-- What waits when a line of a body begins is dropped. -/
theorem run_bodyLine_drop {s s' : Session} {a : Option Place} (hs : s.builder.current.isSome)
    (h : (Mended.attempt (Parser.line .body) (some .body)).run s = (.ok a, s')) :
    (Mended.attempt (Parser.line .body) (some .body)).run
      { s with builder := s.builder.dropInstruction } = (.ok a, s') := by
  obtain ⟨ts, b⟩ := s
  obtain ⟨r, ts', hreads⟩ := (Parser.onlyReads_skipNewlines.bind fun _ =>
    .lift (TokenStream.peek 0)) ts
  have hbody : Parser.bodyLine = (do Parser.skipNewlines; TokenStream.peek 0) >>= _ :=
    (bind_assoc _ _ _).symm
  have hline (b : Builder) : (Parser.line .body).run ⟨ts, b⟩ =
      (some <$> Parser.bodyLine : Parser (Option Place)).run ⟨ts, b⟩ := rfl
  rw [Mended.run_attempt, hline, run_map, hbody, run_bind, hreads] at h ⊢
  obtain (e | f) | (_ | t) := r
  · -- Mending drops it.
    dsimp only at h ⊢
    rw [Build.run_mend_drop]
    generalize (Build.mend e).run b = r at h ⊢
    obtain ⟨f | _, b'⟩ := r
    · cases h
    · exact h
  · cases h
  · -- It goes with the subroutine.
    dsimp only at h ⊢
    rw [run_bind, Pairing.run_lift_build] at h ⊢
    unfold Build.malformed at h ⊢
    dsimp only at h ⊢
    rw [Build.run_report_drop]
    generalize hr : (Build.report .malformed
      "syntax error, unexpected end of file, expecting '.end'").run b = r at h ⊢
    obtain ⟨f | _, b'⟩ := r
    · cases h
    · obtain ⟨-, -, rfl⟩ := Build.run_report_ok hr
      rw [← h]
      have hclose := Builder.closeSub_drop (b := b.record .malformed
        "syntax error, unexpected end of file, expecting '.end'") hs
      exact congrArg (fun c : Option Nat × Builder =>
        ((.ok (some .top), ⟨ts', c.2⟩) : Except Fatal (Option Place) × Session)) hclose
  · -- A statement begins without it.
    exact h

/-- What waits when lines are read from a place on makes no difference. -/
theorem run_linesFrom_drop {q : Place} {s s' : Session} (hq : q.Fits s.builder)
    (h : (Parser.linesFrom q).run s = (.ok (), s')) :
    (Parser.linesFrom q).run { s with builder := s.builder.dropInstruction } = (.ok (), s') := by
  have hsame (hp : s.builder.pendingInstruction = none) :
      ({ s with builder := s.builder.dropInstruction } : Session) = s := by
    obtain ⟨ts, b⟩ := s
    unfold Builder.dropInstruction
    rw [← hp]
  cases q with
  | top => rwa [hsame hq.pendingInstruction]
  | block k => rwa [hsame hq.2.2]
  | body =>
    rw [run_linesFrom] at h ⊢
    cases hrun : (Mended.attempt (Parser.line .body) (some .body)).run s with
    | mk r s₁ =>
    rw [hrun] at h
    cases r with
    | error f => cases h
    | ok a =>
      rw [run_bodyLine_drop hq hrun]
      exact h

/-! Behind the parting -/

/-- Two runs that succeed, from lines that are alike. -/
theorem twin_of_alike {A : Likeness} {o : BuildOptions} {q : Place} {s t s' t' : Session}
    (hrel : s.builder.Twin A o q t.builder)
    (hsteps : List.Forall₂ (StepLike A) s.steps t.steps)
    (hs : (Parser.linesFrom q).run s = (.ok (), s'))
    (ht : (Parser.linesFrom q).run t = (.ok (), t')) : s'.builder.Twin A o .top t'.builder := by
  have := Pairing.twins_continuing (o := o) (textual_same A)
  have hout := Pairing.lines_outcome
    (P := .twins A o (List.Forall₂ (StepLike A)) fun _ _ => False) hrel (.inl hsteps)
  cases hout with
  | ended hs₁ ht₁ hrel _ =>
    cases hs.symm.trans hs₁
    cases ht.symm.trans ht₁
    exact hrel
  | left h _ => cases hs.symm.trans h
  | right h _ => cases ht.symm.trans h
  | stopped _ _ h => exact h.elim
  | askew _ _ _ h => exact h.elim
  | crossed _ _ _ _ _ _ h _ => exact h.elim

/-- Two runs from lines that are alike build the same unit. -/
theorem unit_eq_of_alike {o : BuildOptions} {q : Place} {s t s' t' : Session}
    (hrel : s.builder.Twin .built o q t.builder)
    (hsteps : List.Forall₂ (StepLike .built) s.steps t.steps)
    (hs : (Parser.linesFrom q).run s = (.ok (), s'))
    (ht : (Parser.linesFrom q).run t = (.ok (), t')) :
    s'.builder.finish.1 = t'.builder.finish.1 := by
  obtain ⟨u, ds, l, hc, rfl, -⟩ := (Pairing.twins_closeSub (twin_of_alike hrel hsteps hs ht)).same
  exact (congrArg Builder.unit hc).symm

/-- Where no problem is one too many, a line that breaks is mended. -/
theorem Parser.Reaches.mended {p q : Place} {s s₀ s₁ s' : Session} {e : ParseError}
    (h : Reaches p s q s₀) (hbroken : (Parser.line q).run s₀ = (.error (.broken e), s₁))
    (hs : (linesFrom p).run s = (.ok (), s')) :
    ∃ b, (Build.mend e).run s₁.builder = (.ok (), b) ∧
      Reaches p s q ⟨s₁.tokens.skipLine.2, b.dropInstruction⟩ := by
  rw [h.run_linesFrom, PirFrontend.run_linesFrom] at hs
  have hrun := Mended.run_attempt (Parser.line q) (some q) s₀
  rw [hbroken] at hrun
  dsimp only at hrun
  cases hmend : (Build.mend e).run s₁.builder with
  | mk r b =>
  rw [hmend] at hrun
  cases r with
  | error f =>
    rw [hrun] at hs
    cases hs
  | ok => exact ⟨b, rfl, h.trans (.line hrun (.refl q _))⟩

/-- Two runs, one of which meets a fault where a line of the other is empty. Either the fault is
met by the line in front, or it stands in front of the next line. -/
theorem parting {o : BuildOptions} {f : LexFault} {nl : Token} {X Y : List Step}
    {s t s' t' : Session} (hnl : nl.kind.isNewline = true)
    (hrel : s.builder.Twin .built o .top t.builder)
    (hfork : Forking .built (.error f :: X) (.ok nl :: Y) s.steps t.steps)
    (hs : (Parser.linesFrom .top).run s = (.ok (), s'))
    (ht : (Parser.linesFrom .top).run t = (.ok (), t')) :
    ∃ q s₁ t₁, Parser.Reaches .top s q s₁ ∧ Parser.Reaches .top t q t₁ ∧
      s₁.builder.Twin .built o q t₁.builder ∧ t₁.steps = Y ∧
      (s₁.steps = .error f :: X ∨ Parser.MendsOnto X .top s ∧ s₁.steps = X) := by
  -- The empty line is passed over.
  have hempty {q : Place} {t₁ : Session} (ht₁ : Parser.Reaches .top t q t₁)
      (hY : t₁.steps = .ok nl :: Y) : ∃ t₂, Parser.Reaches .top t q t₂ ∧ t₂.steps = Y ∧
        t₂.builder = t₁.builder := by
    have hblank : Blanks t₁.steps Y := hY ▸ .newline hnl (.refl Y)
    obtain ⟨t₂, hY₂, hb, -, ht₂⟩ := Parser.reaches_blanks hblank q
    exact ⟨t₂, ht₁.trans ht₂, hY₂, hb⟩
  -- The two runs go on alike until they come to the place where the texts part.
  have := Pairing.twins_continuing (o := o)
    (textual_fork (A := .built) (X := .error f :: X) (Y := .ok nl :: Y) nofun)
  have hout := Pairing.lines_outcome (P := .twins .built o
    (Fork .built (.error f :: X) (.ok nl :: Y)) (Forked (.error f :: X) (.ok nl :: Y)))
    hrel (.inl (.inl hfork))
  cases hout with
  | stopped _ _ h => exact h.elim
  | left h _ => cases hs.symm.trans h
  | right h _ => cases ht.symm.trans h
  | ended _ _ _ hm =>
    cases hm with
    | nil h =>
      obtain h | ⟨h, -⟩ := h
      · cases h
      · cases h
  | @askew q s₁ t₁ hs₁ ht₁ hrel ha =>
    obtain ⟨t₂, ht₂, hY, hb⟩ := hempty ht₁ ha.2
    exact ⟨q, s₁, t₂, hs₁, ht₂, hb ▸ hrel, hY, .inl ha.1⟩
  | @crossed s₀ t₀ s₁ t₁ e e' _ _ hs₀ ht₀ he he' hX hY ha hrel =>
    obtain ⟨rfl, rfl⟩ := ha
    obtain ⟨b, hb, hs₂⟩ := hs₀.mended he hs
    obtain ⟨c, hc, ht₂⟩ := ht₀.mended he' ht
    obtain ⟨t₃, ht₃, hY, ht₃b⟩ := hempty ht₂ ((TokenStream.steps_skipLine _).trans hY)
    refine ⟨.body, _, t₃, hs₂, ht₃, ht₃b ▸ twin_mended hrel hb hc, hY, .inr ⟨?_, ?_⟩⟩
    · exact hs₀.mendsOnto (.here he hX)
    · exact (TokenStream.steps_skipLine _).trans hX

end PirFrontend
