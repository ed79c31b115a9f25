import PirFrontend.Proofs.Invariants
import PirFrontend.Proofs.Programs

/-!
From lines to programs. Every line leaves less to read or leaves its place, so reading comes to
the end of the text, and what two runs of one line have in common two runs of a program have.
-/
namespace PirFrontend

open PirFrontend.Parser (Place Block)

/-! Progress -/

/-- Empty lines in front are passed over by any line. -/
theorem run_line_congr {s s' : Session}
    (h : Parser.skipNewlines.run s = Parser.skipNewlines.run s') (p : Place) :
    (Parser.line p).run s = (Parser.line p).run s' := by
  cases p with
  | top =>
    show (Parser.item).run s = Parser.item.run s'
    unfold Parser.item
    rw [run_bind, run_bind, h]
  | body =>
    show (some <$> Parser.bodyLine : Parser (Option Place)).run s =
      (some <$> Parser.bodyLine : Parser (Option Place)).run s'
    unfold Parser.bodyLine
    rw [run_map, run_map, run_bind, run_bind, h]
  | block b =>
    unfold Parser.line Parser.blockLine
    dsimp only
    rw [run_bind, run_bind, run_bind, run_bind, h]

theorem exists_filled (L : List Step) : ∃ M, Blanks L M ∧ Filled M := by
  induction L with
  | nil => exact ⟨[], .refl _, nofun⟩
  | cons step L ih =>
    cases step with
    | error f => exact ⟨_, .refl _, nofun⟩
    | ok t =>
      cases ht : t.kind.isNewline with
      | false =>
        refine ⟨_, .refl _, ?_⟩
        rintro _ _ ⟨⟩
        exact ht
      | true =>
        obtain ⟨M, hM, hf⟩ := ih
        exact ⟨M, .newline ht hM, hf⟩

/-- What a line comes to is nearer to the end of the text, or stands at an outer place in front of
what was left for it. The text is over only if nothing is left. -/
def Advances (p : Place) (s : Session) : Except Failure (Option Place) × Session → Prop
  | (.ok (some q), s') => s.tokens.Follows s'.tokens ∧
      (s'.steps.length < s.steps.length ∨ q.depth < p.depth ∧ Outward s'.steps)
  | (.ok none, s') => s.tokens.Follows s'.tokens ∧ s'.steps = []
  | (.error (.broken _), s') => s.tokens.Follows s'.tokens ∧
      (afterLine s'.steps).length < s.steps.length
  | (.error (.fatal _), _) => True

theorem Advances.mono {p : Place} {s s' : Session} {r : Except Failure (Option Place) × Session}
    (h : Advances p s' r) (hs : s.tokens.Follows s'.tokens) : Advances p s r := by
  have hle : s'.steps.length ≤ s.steps.length := hs.steps_le
  obtain ⟨(e | f) | (_ | q), s''⟩ := r
  · exact ⟨hs.trans h.1, Nat.lt_of_lt_of_le h.2 hle⟩
  · exact trivial
  · exact ⟨hs.trans h.1, h.2⟩
  · exact ⟨hs.trans h.1, h.2.imp_left (Nat.lt_of_lt_of_le · hle)⟩

instance : Builder.Invariant fun _ _ => True where
  same _ _ := trivial
  emit _ _ _ _ _ := trivial
  beginBlock _ _ := trivial
  leaveBlock _ := trivial
  changeCall _ _ _ _ _ _ := trivial
  endCall _ _ _ _ := trivial
  openSub _ _ := trivial
  closeSub _ := trivial

/-- At the end of the text there are no empty lines to pass over, and no token is next. -/
theorem run_opening_end {s : Session} (h : s.steps = []) : ∃ ts s₁,
    Parser.skipNewlines.run s = (.ok (), s₁) ∧
    (liftM (TokenStream.peek 0) : Parser (Option Token)).run s₁ = (.ok none, ⟨ts, s.builder⟩) ∧
    s.tokens.Follows ts ∧ ts.steps = [] := by
  have hf : Filled s.steps := by
    rw [h]
    nofun
  obtain ⟨s₁, hskip, hs₁, hb₁, hF₁⟩ := s.skipNewlines_filled hf
  rw [h] at hskip hs₁
  obtain ⟨s₂, hpeek, hs₂, hb₂, hF₂⟩ := s₁.run_peek (Nat.zero_le _)
  rw [hs₁] at hpeek hs₂
  exact ⟨s₂.tokens, s₁, hskip, hb₁ ▸ hb₂ ▸ hpeek, hF₁.trans hF₂, hs₂⟩

/-- Outside of subroutines the text may be over. -/
theorem run_line_top_end {s : Session} (h : s.steps = []) : ∃ ts,
    (Parser.line .top).run s = (.ok none, ⟨ts, s.builder⟩) ∧ s.tokens.Follows ts ∧
      ts.steps = [] := by
  obtain ⟨ts, s₁, hskip, hpeek, hF, hts⟩ := run_opening_end h
  refine ⟨ts, ?_, hF, hts⟩
  show Parser.item.run s = _
  unfold Parser.item
  rw [run_bind_ok hskip, run_bind_ok hpeek]
  rfl

/-- At the end of the text a subroutine is closed, once it was reported that its end is missing. -/
theorem run_line_body_end {s : Session} (h : s.steps = []) : ∃ ts,
    (Parser.line .body).run s = (match (Build.malformed
        "syntax error, unexpected end of file, expecting '.end'").run s.builder with
      | (.ok _, b) => (.ok (some .top), ⟨ts, b.closeSub.2⟩)
      | (.error f, b) => (.error (.fatal f), ⟨ts, b⟩)) ∧ s.tokens.Follows ts ∧ ts.steps = [] := by
  obtain ⟨ts, s₁, hskip, hpeek, hF, hts⟩ := run_opening_end h
  refine ⟨ts, ?_, hF, hts⟩
  show (some <$> Parser.bodyLine : Parser (Option Place)).run s = _
  unfold Parser.bodyLine
  rw [run_map, run_bind_ok hskip, run_bind_ok hpeek]
  dsimp only
  rw [run_bind, Pairing.run_lift_build]
  generalize (Build.malformed _).run s.builder = r
  obtain ⟨f | a, b⟩ := r <;> rfl

/-- At the end of the text a block is left for the body around it, once it was reported that its
end is missing. -/
theorem run_line_block_end {s : Session} (h : s.steps = []) (k : Block) : ∃ ts,
    (Parser.line (.block k)).run s = (match (Build.malformed
          s!"syntax error, unexpected end of file, expecting '{k.ending.spelling}'").run
        s.builder with
      | (.ok _, b) => (.ok (some .body), ⟨ts, b.dropInstruction⟩)
      | (.error f, b) => (.error (.fatal f), ⟨ts, b⟩)) ∧ s.tokens.Follows ts ∧ ts.steps = [] := by
  obtain ⟨ts, s₁, hskip, hpeek, hF, hts⟩ := run_opening_end h
  refine ⟨ts, ?_, hF, hts⟩
  unfold Parser.line Parser.blockLine
  dsimp only
  rw [run_bind, run_bind_ok hskip, run_bind_ok hpeek]
  dsimp only
  rw [run_bind, Pairing.run_lift_build]
  generalize (Build.malformed _).run s.builder = r
  obtain ⟨f | a, b⟩ := r <;> rfl

/-- At the end of the text a line reports what is missing and leaves its place. -/
theorem line_advances_end {s : Session} (h : s.steps = []) (p : Place) :
    Advances p s ((Parser.line p).run s) := by
  cases p with
  | top =>
    obtain ⟨ts, hrun, hF, hts⟩ := run_line_top_end h
    rw [hrun]
    exact ⟨hF, hts⟩
  | body =>
    obtain ⟨ts, hrun, hF, hts⟩ := run_line_body_end h
    have hout : Outward ts.steps := hts ▸ outward_nil
    rw [hrun]
    generalize (Build.malformed _).run s.builder = r
    obtain ⟨f | a, b⟩ := r
    · trivial
    · exact ⟨hF, .inr ⟨Nat.zero_lt_one, hout⟩⟩
  | block k =>
    obtain ⟨ts, hrun, hF, hts⟩ := run_line_block_end h k
    have hout : Outward ts.steps := hts ▸ outward_nil
    rw [hrun]
    generalize (Build.malformed _).run s.builder = r
    obtain ⟨f | a, b⟩ := r
    · trivial
    · exact ⟨hF, .inr ⟨Nat.lt_succ_self 1, hout⟩⟩

theorem line_advances (p : Place) (s : Session) : Advances p s ((Parser.line p).run s) := by
  obtain ⟨L, hL, hfilled⟩ := exists_filled s.steps
  obtain ⟨s', rfl, -, hF, hskip⟩ := s.skipNewlines_blanks hL
  rw [run_line_congr hskip]
  refine Advances.mono ?_ hF
  by_cases hend : s'.steps = []
  · exact line_advances_end hend p
  have hpos : 0 < s'.steps.length := List.length_pos_iff.2 hend
  -- The run next to itself, where every line ahead has fewer steps.
  have hmid : (Pairing.single (fun _ _ => True) s'.steps.length).Mid p [] s' s' :=
    ⟨⟨rfl, trivial⟩, Pairing.single_mid (Nat.le_refl _) hpos, trivial⟩
  have hruns := Pairing.line_runs hmid hfilled hfilled
  unfold Pairing.Runs at hruns
  generalize (Parser.line p).run s' = r at *
  cases hruns with
  | @ok a _ s'' _ hs _ hq =>
    cases a with
    | none => exact ⟨hs, hq.2.2.2.1⟩
    | some q =>
      obtain ⟨-, -, ⟨-, hlt⟩ | ⟨-, hlt⟩⟩ := hq
      · exact ⟨hs, .inl hlt⟩
      · exact ⟨hs, .inr hlt⟩
  | @broken e _ s'' _ hs _ _ _ =>
    refine ⟨hs, ?_⟩
    by_cases hnil : s''.steps = []
    · rw [hnil]
      exact hpos
    · exact Nat.lt_of_lt_of_le (length_afterLine_lt hnil) hs.steps_le
  | crossed _ _ _ _ _ h => exact h.elim
  | stopped _ => trivial
  | left h => exact h.elim
  | right h => exact h.elim

/-- A line that was mended leads onwards, too. -/
theorem attempt_advances {p : Place} {s s' : Session} {a : Option Place}
    (h : (Mended.attempt (Parser.line p) (some p)).run s = (.ok a, s')) :
    Advances p s (.ok a, s') := by
  have hadv := line_advances p s
  rw [Mended.run_attempt] at h
  generalize (Parser.line p).run s = r at *
  obtain ⟨(e | f) | a, s₁⟩ := r
  · dsimp only at h
    generalize (Build.mend e).run s₁.builder = r at h
    obtain ⟨f | _, b⟩ := r
    · cases h
    · cases h
      refine ⟨hadv.1.trans s₁.tokens.follows_skipLine, .inl ?_⟩
      show s₁.tokens.skipLine.2.steps.length < _
      rw [TokenStream.steps_skipLine]
      exact hadv.2
  · cases h
  · cases h
    exact hadv

theorem attempt_follows {p : Place} {s s' : Session} {a : Option Place}
    (h : (Mended.attempt (Parser.line p) (some p)).run s = (.ok a, s')) :
    s.tokens.Follows s'.tokens := by
  have hadv := attempt_advances h
  cases a with
  | none => exact hadv.1
  | some q => exact hadv.1

/-- Reading on ends, since no line is read twice at the same place. -/
theorem attempt_decreases {p q : Place} {s s' : Session}
    (h : (Mended.attempt (Parser.line p) (some p)).run s = (.ok (some q), s')) :
    s'.size < s.size ∨ s'.size ≤ s.size ∧ q.depth < p.depth := by
  obtain ⟨hF, hlt | ⟨hdepth, -⟩⟩ := attempt_advances h
  · exact .inl (hF.size_lt hlt)
  · exact .inr ⟨hF.size_mono, hdepth⟩

/-- Lines are read one after the other. -/
theorem run_linesFrom (p : Place) (s : Session) : (Parser.linesFrom p).run s =
    match (Mended.attempt (Parser.line p) (some p)).run s with
    | (.ok none, s') => (.ok (), s')
    | (.ok (some q), s') => (Parser.linesFrom q).run s'
    | (.error f, s') => (.error f, s') := by
  show Parser.linesFrom p s = _
  rw [Parser.linesFrom]
  cases hr : (Mended.attempt (Parser.line p) (some p)).run s with
  | mk r s' =>
    obtain f | _ | q := r
    · rfl
    · rfl
    · exact if_pos (attempt_decreases hr)

/-- What holds at a place if it holds where a line leads from there holds of all lines. -/
theorem lines_induction {motive : Place → Session → Prop}
    (line : ∀ p s, (∀ q s', (Mended.attempt (Parser.line p) (some p)).run s = (.ok (some q), s') →
      motive q s') → motive p s) (p : Place) (s : Session) : motive p s := by
  -- Each line is shorter or leaves its place, so what is ahead gets smaller.
  induction hn : 3 * s.size + p.depth using Nat.strongRecOn generalizing p s with
  | ind n ih =>
  refine line p s fun q s' hrun => ih _ ?_ q s' rfl
  have hq := q.depth_le
  have hadv := attempt_decreases hrun
  omega

/-! Runs of programs -/

/-- Reading lines from a place comes to another place. Empty lines may be left out. -/
inductive Parser.Reaches : Place → Session → Place → Session → Prop
  | refl (p : Place) (s : Session) : Reaches p s p s
  | line {p q r : Place} {s s' s'' : Session} :
      (Mended.attempt (line p) (some p)).run s = (.ok (some q), s') → Reaches q s' r s'' →
      Reaches p s r s''
  | blank {p q : Place} {s s' s'' : Session} : s.tokens.Follows s'.tokens →
      (line p).run s = (line p).run s' → Reaches p s' q s'' → Reaches p s q s''

theorem attempt_congr {p : Place} {s s' : Session}
    (h : (Parser.line p).run s = (Parser.line p).run s') :
    (Mended.attempt (Parser.line p) (some p)).run s =
      (Mended.attempt (Parser.line p) (some p)).run s' := by
  rw [Mended.run_attempt, Mended.run_attempt, h]

theorem run_linesFrom_congr {p : Place} {s s' : Session}
    (h : (Parser.line p).run s = (Parser.line p).run s') :
    (Parser.linesFrom p).run s = (Parser.linesFrom p).run s' := by
  rw [run_linesFrom, run_linesFrom, attempt_congr h]

theorem Parser.Reaches.trans {p q r : Place} {s s' s'' : Session} (h : Reaches p s q s')
    (h' : Reaches q s' r s'') : Reaches p s r s'' := by
  induction h with
  | refl => exact h'
  | line hrun _ ih => exact .line hrun (ih h')
  | blank hF hrun _ ih => exact .blank hF hrun (ih h')

/-- Reading passes over the empty lines in front of a line. -/
theorem Parser.reaches_blanks {s : Session} {L : List Step} (h : Blanks s.steps L) (p : Place) :
    ∃ s', s'.steps = L ∧ s'.builder = s.builder ∧ (line p).run s = (line p).run s' ∧
      Reaches p s p s' := by
  obtain ⟨s', hs, hb, hF, hskip⟩ := s.skipNewlines_blanks h
  have hrun := run_line_congr hskip p
  exact ⟨s', hs, hb, hrun, .blank hF hrun (.refl p s')⟩

theorem Parser.Reaches.run_linesFrom {p q : Place} {s s' : Session} (h : Reaches p s q s') :
    (linesFrom p).run s = (linesFrom q).run s' := by
  induction h with
  | refl => rfl
  | line hrun _ ih =>
    rw [PirFrontend.run_linesFrom, hrun]
    exact ih
  | blank _ hrun _ ih => exact (run_linesFrom_congr hrun).trans ih

namespace Pairing

/-- How two runs of a program end, or where they part. -/
inductive Outcome (P : Pairing) (p : Place) (s t : Session) : Prop
  | ended {s' t' : Session} : (Parser.linesFrom p).run s = (.ok (), s') →
      (Parser.linesFrom p).run t = (.ok (), t') → P.rel .top s'.builder t'.builder →
      P.mid [] [] → Outcome P p s t
  | stopped {f g : Fatal} {s' t' : Session} : (Parser.linesFrom p).run s = (.error f, s') →
      (Parser.linesFrom p).run t = (.error g, t') → P.stopped f s'.builder g t'.builder →
      Outcome P p s t
  | left {f : Fatal} {s' : Session} : (Parser.linesFrom p).run s = (.error f, s') →
      P.aside f s'.builder → Outcome P p s t
  | right {f : Fatal} {t' : Session} : (Parser.linesFrom p).run t = (.error f, t') →
      P.aside f t'.builder → Outcome P p s t
  /-- The next lines differ. -/
  | askew {q : Place} {s' t' : Session} : Parser.Reaches p s q s' → Parser.Reaches p t q t' →
      P.rel q s'.builder t'.builder → P.askew s'.steps t'.steps → Outcome P p s t
  /-- A line of a body was broken when both had looked at the next lines, and these differ. -/
  | crossed {s₀ t₀ s₁ t₁ : Session} {e e' : ParseError} {L M : List Step} :
      Parser.Reaches p s .body s₀ → Parser.Reaches p t .body t₀ →
      (Parser.line .body).run s₀ = (.error (.broken e), s₁) →
      (Parser.line .body).run t₀ = (.error (.broken e'), t₁) →
      afterLine s₁.steps = (lookAt 0 L).2 → afterLine t₁.steps = (lookAt 0 M).2 → P.askew L M →
      P.stray .body s₁.builder t₁.builder → Outcome P p s t

variable {P : Pairing} {p q : Place} {s t s' t' : Session}

/-- What comes of two runs comes of them where they were before. -/
theorem Outcome.reached (h : P.Outcome q s' t') (hs : Parser.Reaches p s q s')
    (ht : Parser.Reaches p t q t') : P.Outcome p s t := by
  have hl := hs.run_linesFrom
  have hr := ht.run_linesFrom
  cases h with
  | ended h h' hrel hm => exact .ended (hl.trans h) (hr.trans h') hrel hm
  | stopped h h' hst => exact .stopped (hl.trans h) (hr.trans h') hst
  | left h ha => exact .left (hl.trans h) ha
  | right h ha => exact .right (hr.trans h) ha
  | askew h h' hrel ha => exact .askew (hs.trans h) (ht.trans h') hrel ha
  | crossed h h' he he' hL hM ha hstray =>
    exact .crossed (hs.trans h) (ht.trans h') he he' hL hM ha hstray

/-- How two runs of a line end, be it mended or not. -/
inductive Attempted (P : Pairing) (p : Place) (s t : Session) :
    Except Fatal (Option Place) × Session → Except Fatal (Option Place) × Session → Prop
  | last {s' t' : Session} : P.rel .top s'.builder t'.builder → P.mid [] [] →
      P.Attempted p s t (.ok none, s') (.ok none, t')
  | next {q : Place} {s' t' : Session} : P.rel q s'.builder t'.builder →
      P.start s'.steps t'.steps ∨ P.mid s'.steps t'.steps →
      P.Attempted p s t (.ok (some q), s') (.ok (some q), t')
  | stopped {f g : Fatal} {s' t' : Session} : P.stopped f s'.builder g t'.builder →
      P.Attempted p s t (.error f, s') (.error g, t')
  | left {f : Fatal} {s' : Session} {r : Except Fatal (Option Place) × Session} :
      P.aside f s'.builder → P.Attempted p s t (.error f, s') r
  | right {f : Fatal} {t' : Session} {r : Except Fatal (Option Place) × Session} :
      P.aside f t'.builder → P.Attempted p s t r (.error f, t')
  | crossed {r r' : Except Fatal (Option Place) × Session} {s' t' : Session}
      {e e' : ParseError} {L M : List Step} : p = .body →
      (Parser.line p).run s = (.error (.broken e), s') →
      (Parser.line p).run t = (.error (.broken e'), t') →
      afterLine s'.steps = (lookAt 0 L).2 → afterLine t'.steps = (lookAt 0 M).2 → P.askew L M →
      P.stray p s'.builder t'.builder → P.Attempted p s t r r'

/-- Lines that end alike, from wherever on, are mended alike. -/
theorem attempted_of_ends [P.Lawful] {u v : Session}
    (h : P.Ends (p = .body) p u v (fun a a' s' t' => a = a' ∧ P.Passed p a s' t')
      ((Parser.line p).run s) ((Parser.line p).run t)) :
    P.Attempted p s t ((Mended.attempt (Parser.line p) (some p)).run s)
      ((Mended.attempt (Parser.line p) (some p)).run t) := by
  rw [Mended.run_attempt, Mended.run_attempt]
  cases hr : (Parser.line p).run s with
  | mk r s' =>
  cases hr' : (Parser.line p).run t with
  | mk r' t' =>
  rw [hr, hr'] at h
  cases h with
  | @ok a _ _ _ _ _ hq =>
    obtain ⟨rfl, hq⟩ := hq
    cases a with
    | none => exact .last hq.1 hq.2.1
    | some q => exact .next hq.rel (hq.steps.imp id And.left)
  | crossed hp _ _ hL hM ha hstray => exact .crossed hp hr hr' hL hM ha hstray
  | stopped h => exact .stopped h
  | left h => exact .left h
  | right h => exact .right h
  | @broken e e' _ _ _ _ he hm =>
    -- Both runs break, so both are mended and go on behind their lines.
    have hmend := Lawful.mend he hm.rel
    dsimp only
    generalize (Build.mend e).run s'.builder = r at hmend ⊢
    generalize (Build.mend e').run t'.builder = r' at hmend ⊢
    cases hmend with
    | stopped h => exact .stopped h
    | left h => exact .left h
    | right h => exact .right h
    | ok hrel =>
      exact .next (Lawful.drop hrel) (.inl hm.skipLine)

theorem line_attempted [P.Lawful] (h : P.Mid p [] s t) (hs : Filled s.steps)
    (ht : Filled t.steps) :
    P.Attempted p s t ((Mended.attempt (Parser.line p) (some p)).run s)
      ((Mended.attempt (Parser.line p) (some p)).run t) :=
  attempted_of_ends (line_runs h hs ht)

/-- Behind empty lines a line is ahead of both runs, or the texts part. -/
theorem meet_lines [P.Continuing] (hrel : P.rel p s.builder t.builder)
    (hsteps : P.start s.steps t.steps ∨ P.mid s.steps t.steps) :
    ∃ s' t', Blanks s.steps s'.steps ∧ s'.builder = s.builder ∧
      (Parser.line p).run s = (Parser.line p).run s' ∧ Parser.Reaches p s p s' ∧
      Parser.Reaches p t p t' ∧ P.rel p s'.builder t'.builder ∧
      (P.askew s'.steps t'.steps ∨ P.Mid p [] s' t' ∧ Filled s'.steps ∧ Filled t'.steps) := by
  obtain ⟨L, M, hL, hM, hor⟩ := meet hsteps
  obtain ⟨s', rfl, hsb, hrun, hs⟩ := Parser.reaches_blanks hL p
  obtain ⟨t', rfl, htb, -, ht⟩ := Parser.reaches_blanks hM p
  rw [← hsb, ← htb] at hrel
  exact ⟨s', t', hL, hsb, hrun, hs, ht, hrel, hor.imp id fun h => ⟨⟨hrel, h.1, trivial⟩, h.2⟩⟩

/-- Two runs that have so much in common keep it to the end, or up to where their lines differ. -/
theorem lines_outcome [P.Continuing] (hrel : P.rel p s.builder t.builder)
    (hsteps : P.start s.steps t.steps ∨ P.mid s.steps t.steps) : P.Outcome p s t := by
  induction p, s using lines_induction generalizing t with
  | line p s ih =>
  obtain ⟨s', t', -, -, hsame, hs, ht, hrel, hor⟩ := meet_lines hrel hsteps
  refine Outcome.reached ?_ hs ht
  -- The texts may part here, between two lines; else a line is ahead of both runs.
  obtain hask | ⟨hmid, hfs, hft⟩ := hor
  · exact .askew (.refl p s') (.refl p t') hrel hask
  have hatt := line_attempted hmid hfs hft
  have hl := run_linesFrom p s'
  have hr := run_linesFrom p t'
  cases hrun : (Mended.attempt (Parser.line p) (some p)).run s' with
  | mk r s₁ =>
  cases hrun' : (Mended.attempt (Parser.line p) (some p)).run t' with
  | mk r' t₁ =>
  rw [hrun] at hl
  rw [hrun'] at hr
  rw [hrun, hrun'] at hatt
  cases hatt with
  | last hrel hm => exact .ended hl hr hrel hm
  | stopped h => exact .stopped hl hr h
  | left h => exact .left hl h
  | right h => exact .right hr h
  | crossed hp he he' hL hM ha hstray =>
    subst hp
    exact .crossed (.refl _ s') (.refl _ t') he he' hL hM ha hstray
  | @next q _ _ hrel hst =>
    have hrun₀ : (Mended.attempt (Parser.line p) (some p)).run s = (.ok (some q), s₁) := by
      rw [attempt_congr hsame, hrun]
    exact (ih q s₁ hrun₀ hrel hst).reached (.line hrun (.refl q s₁)) (.line hrun' (.refl q t₁))

end Pairing
end PirFrontend
