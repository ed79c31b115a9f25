import PirFrontend.Proofs.Arriving
import PirFrontend.Proofs.Breaking
import PirFrontend.Proofs.LeadingLabels

/-!
A line of a body whose rule breaks. It counts for its label alone, or for an empty line, and it
reports that it is malformed once.
-/
namespace PirFrontend

open PirFrontend.Parser (Place Block)

/-- The line `line` behind `front` is read in a body, and its rule breaks. -/
structure BrokenLine (front line rest : String) (o : BuildOptions) (s s' : Session)
    (e : ParseError) : Prop where
  /-- Reading comes to a body. -/
  comes : Parser.Comes .top (Session.start (front ++ "\n" ++ line ++ "\n" ++ rest) o) .body s
  /-- What is left there is this line and all behind it, maybe with empty lines in front. -/
  here : Blanks s.steps (Lexer.behind (front ++ "\n") (line ++ "\n" ++ rest)).steps
  /-- The line is no empty one. -/
  filled : Filled (Lexer.behind (front ++ "\n") (line ++ "\n" ++ rest)).steps
  broken : (Parser.line .body).run s = (.error (.broken e), s')

/-! The tokens of the line -/

/-- The number of the line behind a text and a newline. -/
def lineNumber (front : String) : Nat := (front ++ "\n").toList.count '\n' + 1

/-- The tokens of a line in a text that scans. -/
theorem line_tokens {front line rest : String} {us : List Token} (hline : '\n' ∉ line.toList)
    (hsteps : (Lexer.behind front (line ++ "\n" ++ rest)).steps = us.map .ok)
    (hf : Filled (Lexer.behind front (line ++ "\n" ++ rest)).steps) :
    ∃ t ts nl, OneLine (front.toList.count '\n' + 1) (t :: ts) nl ∧
      (Lexer.behind front line).steps = .ok t :: ts.map .ok ∧
      (Lexer.behind front (line ++ "\n" ++ rest)).steps =
        Pairing.Row.steps (t :: ts) nl (Lexer.behind (front ++ line ++ "\n") rest).steps ∧
      ∀ f L, (Lexer.behind (front ++ line ++ "\n") rest).steps ≠ .error f :: L := by
  -- The line is cut out of the text: its own tokens, its newline, and what is behind.
  have hsplit := Lexer.steps_behind front line rest
  have hnumber : (Lexer.behind front line).line = front.toList.count '\n' + 1 := by
    simp [Lexer.behind, Lexer.pass, Lexer.ofString]
    omega
  have hinline {t : Token} (ht : .ok t ∈ (Lexer.behind front line).steps) :=
    Lexer.inline_of_mem_steps hline ht
  rw [hnumber] at hinline
  have hnl : (Lexer.behind front line).newlineToken.line = front.toList.count '\n' + 1 := by
    show (Lexer.behind front line).line + line.toList.count '\n' = _
    rw [hnumber, List.count_eq_zero.2 hline, Nat.add_zero]
  obtain ⟨ts, vs, rfl, hts, hvs⟩ := List.append_eq_map_iff.1 (hsplit.symm.trans hsteps)
  rw [← hts] at hsplit hinline ⊢
  cases ts with
  | nil =>
    have hk := hf _ _ hsplit
    cases hk
  | cons t ts =>
    refine ⟨t, ts, _, ⟨fun u hu => hinline (List.mem_map_of_mem hu), hnl, rfl⟩, rfl, hsplit, ?_⟩
    intro f L hC
    rw [hC] at hvs
    obtain _ | ⟨_, _ | ⟨v, vs⟩⟩ := vs <;> cases hvs

/-! The end of the line -/

theorem Builder.Twin.self {o : BuildOptions} {p : Place} {b c : Builder} (h : b.Twin .built o p c) :
    b.Twin .built o p b :=
  ⟨h.options, h.opcodes, ⟨b.unit, b.diagnostics, b.line, rfl, rfl, trivial, trivial⟩, h.left,
    h.left, h.fits⟩

/-- A line stands beside itself, with what is behind it. -/
theorem mid_oneLine {o : BuildOptions} {n : Nat} {ts : List Token} {nl : Token} {C : List Step}
    (hline : OneLine n ts nl) :
    (Pairing.twins .built o (Forked C C) (Forked C C)).mid (Pairing.Row.steps ts nl C)
      (Pairing.Row.steps ts nl C) := by
  induction ts with
  | nil => exact .newline ⟨⟨rfl, rfl⟩, trivial⟩ hline.newline ⟨rfl, rfl⟩
  | cons t ts ih =>
    exact .token ⟨⟨rfl, rfl⟩, trivial⟩ (hline.inline t List.mem_cons_self).2 (ih hline.tail)

/-- A line is read to its end and no further, be it mended or not, unless it is left for the place
around. -/
theorem attempt_steps {o : BuildOptions} {p q : Place} {s s' : Session} {n : Nat} {t nl : Token}
    {ts : List Token} {C : List Step} (hb : s.builder.Twin .built o p s.builder)
    (hline : OneLine n (t :: ts) nl) (hC : ∀ f L, C ≠ .error f :: L)
    (h : s.steps = Pairing.Row.steps (t :: ts) nl C)
    (hrun : (Mended.attempt (Parser.line p) (some p)).run s = (.ok (some q), s')) :
    s'.steps = C ∨ q.depth < p.depth := by
  -- Where the line is over, nothing is asked of the text behind it.
  have htextual : Textual .built (Forked C C) (Forked C C) :=
    ⟨fun hf => absurd hf.1.symm (hC _ _), .inr⟩
  have := Pairing.twins_continuing (o := o) htextual
  have hfilled : Filled s.steps := by
    rw [h]
    rintro _ _ ⟨⟩
    exact (hline.inline t List.mem_cons_self).2
  have hstart : (Pairing.twins .built o (Forked C C) (Forked C C)).Mid p [] s s :=
    ⟨hb, h ▸ mid_oneLine hline, trivial⟩
  have hruns := Pairing.line_runs hstart hfilled hfilled
  unfold Pairing.Runs at hruns
  cases hr : (Parser.line p).run s with
  | mk r s₁ =>
  rw [hr] at hruns
  -- A rule that is over left its line; a broken one is mended, which skips the rest of the line.
  cases hruns with
  | ok _ _ hq =>
    rw [Mended.run_attempt, hr] at hrun
    cases hrun
    exact hq.2.steps.imp (fun h => h.1) fun h => h.2.1
  | broken _ _ _ hm =>
    obtain ⟨b, -, -, rfl⟩ := Parser.attempt_broken hr hrun
    exact .inl hm.skipLine.1
  | @crossed _ _ _ _ L _ _ _ _ hL _ ha _ =>
    obtain ⟨b, -, -, rfl⟩ := Parser.attempt_broken hr hrun
    obtain ⟨rfl, -⟩ := ha
    refine .inl ((TokenStream.steps_skipLine _).trans (hL.trans ?_))
    match L, hC with
    | [], _ => rfl
    | .ok _ :: _, _ => rfl
    | .error f :: L, hC => exact absurd rfl (hC f L)
  | stopped h => exact h.elim
  | left _ =>
    rw [Mended.run_attempt, hr] at hrun
    cases hrun
  | right _ =>
    rw [Mended.run_attempt, hr] at hrun
    cases hrun

/-! Lines behind the first line of a subroutine -/

/-- Whether a token is next that does not end its line. -/
def Lexer.atToken (l : Lexer) : Bool :=
  match l.next with
  | (.token t, _) => !t.kind.isNewline
  | _ => false

theorem Lexer.filled_of_atToken {l : Lexer} (h : l.atToken = true) : Filled l.steps := by
  intro t L hsteps
  obtain ⟨l', hnext⟩ := next_of_steps hsteps
  unfold atToken at h
  rw [hnext] at h
  simpa using h

/-- Whether the first line of a text opens a subroutine, and a test is passed behind it. -/
def opensBody (source : String) (test : Session → Bool) : Bool :=
  match (Mended.attempt (Parser.line .top) (some .top)).run (Session.start source .standard) with
  | (.ok (some .body), s) => test s
  | _ => false

/-- Behind a line that opens a subroutine the next line is read in a body. -/
theorem exists_of_opensBody {header line rest : String} {test : Session → Bool}
    {ts : List Token} (hheader : '\n' ∉ header.toList)
    (hscan : (Lexer.ofString 0 (header ++ "\n" ++ line ++ "\n" ++ rest)).tokens = .ok ts)
    (hfirst : (Lexer.ofString 0 (header ++ "\n" ++ line ++ "\n" ++ rest)).atToken = true)
    (h : opensBody (header ++ "\n" ++ line ++ "\n" ++ rest) test = true) : ∃ s,
      Parser.Comes .top (Session.start (header ++ "\n" ++ line ++ "\n" ++ rest) .standard) .body s ∧
      s.steps = (Lexer.behind (header ++ "\n") (line ++ "\n" ++ rest)).steps ∧ test s = true := by
  generalize hsource : header ++ "\n" ++ line ++ "\n" ++ rest = source at hscan hfirst h
  replace hsource : header ++ "\n" ++ (line ++ "\n" ++ rest) = source := by
    rw [← hsource]
    simp only [String.append_assoc]
  unfold opensBody at h
  split at h
  next s hrun =>
    have hsteps := steps_of_tokens hscan
    have hfilled := Lexer.filled_of_atToken hfirst
    rw [← Lexer.behind_empty, ← hsource] at hsteps hfilled
    -- The line that opens the subroutine was read to its end, so the next one begins there.
    obtain ⟨t, us, nl, hline, -, hrow, hC⟩ := line_tokens hheader hsteps hfilled
    rw [String.empty_append] at hrow hC
    rw [hsource] at hrow
    have hend := attempt_steps (s := Session.start source .standard)
      (Builder.new_twin .built .standard) hline hC hrow hrun
    exact ⟨s, .line hrun (.refl _ _), hend.resolve_right (Nat.not_lt_zero 1), h⟩
  next => cases h

theorem exists_of_isOk {ε α : Type} {x : Except ε α} (h : x.isOk = true) : ∃ a, x = .ok a := by
  cases x with
  | ok a => exact ⟨a, rfl⟩
  | error e => cases h

/-- Whether the rule for a line of a body breaks. -/
def breaks (s : Session) : Bool :=
  match ((Parser.line .body).run s).1 with
  | .error (.broken _) => true
  | _ => false

theorem exists_of_breaks {s : Session} (h : breaks s = true) :
    ∃ e s', (Parser.line .body).run s = (.error (.broken e), s') := by
  unfold breaks at h
  generalize (Parser.line .body).run s = r at h ⊢
  obtain ⟨(e | f) | a, s'⟩ := r
  · exact ⟨e, s', rfl⟩
  · cases h
  · cases h

/-! What is left of the line -/

variable {a r c : String} {o : BuildOptions} {s s' : Session} {e : ParseError}

/-- The steps of a text behind the line in front of the broken one. -/
theorem steps_line (a l c : String) (o : BuildOptions) :
    (Session.start (a ++ "\n" ++ l ++ "\n" ++ c) o).steps =
      (Lexer.behind "" a).steps ++ .ok (Lexer.behind "" a).newlineToken ::
        (Lexer.behind (a ++ "\n") (l ++ "\n" ++ c)).steps := by
  have hsource : a ++ "\n" ++ l ++ "\n" ++ c = a ++ "\n" ++ (l ++ "\n" ++ c) := by
    simp only [String.append_assoc]
  rw [hsource]
  exact Lexer.steps_source o a (l ++ "\n" ++ c)

namespace BrokenLine

/-- Whatever stands in the place of the line, reading comes there having built the same. -/
theorem fork (h : BrokenLine a r c o s s' e) {l : String} {u v : Token} {X Y : List Step}
    {t' : Session} (hX : (Lexer.behind (a ++ "\n") (r ++ "\n" ++ c)).steps = .ok u :: X)
    (hu : u.kind.isNewline = false) (hout : ¬Outward (.ok u :: X))
    (hY : (Lexer.behind (a ++ "\n") (l ++ "\n" ++ c)).steps = .ok v :: Y)
    (hrun : (Parser.linesFrom .top).run (Session.start (a ++ "\n" ++ l ++ "\n" ++ c) o) =
      (.ok (), t')) :
    ∃ t, Parser.Reaches .top (Session.start (a ++ "\n" ++ l ++ "\n" ++ c) o) .body t ∧
      s.builder.Twin .built o .body t.builder ∧ t.steps = .ok v :: Y := by
  have hfork : Forking .built (.ok u :: X) (.ok v :: Y)
      (Session.start (a ++ "\n" ++ r ++ "\n" ++ c) o).steps
      (Session.start (a ++ "\n" ++ l ++ "\n" ++ c) o).steps := by
    rw [steps_line, steps_line, hX, hY]
    exact forking_append _ (.refl _) rfl _ _
  exact h.comes.fork (hX ▸ h.here) hu hout (Builder.new_twin .built o) (.inl (.inl hfork)) hrun

end BrokenLine

/-- How a line of a body is dropped that breaks: it leaves its label, and reports what was noted
and that the text is malformed. -/
structure Dropped (a r c : String) (o : BuildOptions) (s s₁ : Session) (e : ParseError)
    (t : Token) (b : Builder) (ds : List Diagnostic) : Prop where
  label : t.kind ≠ .label ∧ b = s.builder.beginStatement t.line ∨ t.kind = .label ∧
    (Build.setLabel t.lexeme).run (s.builder.beginStatement t.line) = (.ok (), b)
  noted : ∀ d ∈ ds, d.kind ≠ .malformed
  tolerated : (b.reported (ds ++ [⟨.malformed, e.message, lineNumber a⟩])).overfull = false
  mended : (Mended.attempt (Parser.line .body) (some .body)).run s = (.ok (some .body), s₁)
  steps : s₁.steps = (Lexer.behind (a ++ "\n" ++ r ++ "\n") c).steps
  builder : s₁.builder =
    (b.reported (ds ++ [⟨.malformed, e.message, lineNumber a⟩])).dropInstruction

namespace BrokenLine

theorem dropped (h : BrokenLine a r c o s s' e) {ts : List Token} {s₀ : Session}
    (hscan : (Lexer.ofString 0 (a ++ "\n" ++ r ++ "\n" ++ c)).tokens = .ok ts)
    (hr : '\n' ∉ r.toList)
    (hrun : (Parser.linesFrom .top).run (Session.start (a ++ "\n" ++ r ++ "\n" ++ c) o) =
      (.ok (), s₀)) :
    ∃ t X us, (Lexer.behind (a ++ "\n") (r ++ "\n" ++ c)).steps = .ok t :: X ∧
      t.kind.isNewline = false ∧ ¬Outward (.ok t :: X) ∧
      (Lexer.behind (a ++ "\n") r).steps = .ok t :: us ∧
      ∃ b ds s₁, Dropped a r c o s s₁ e t b ds := by
  -- The tokens of the line
  have hsteps := steps_line a r c o
  rw [show (Session.start (a ++ "\n" ++ r ++ "\n" ++ c) o).steps = ts.map .ok from
    steps_of_tokens hscan] at hsteps
  obtain ⟨_, vs, rfl, -, hvs⟩ := List.append_eq_map_iff.1 hsteps.symm
  obtain ⟨_, us, rfl, -, hus⟩ := List.map_eq_cons_iff.1 hvs
  obtain ⟨t, ts, nl, hline, hfirst, hrow, hC⟩ := line_tokens hr hus.symm h.filled
  obtain ⟨u, X, hu⟩ := Pairing.Row.exists_head ts nl
    (Lexer.behind (a ++ "\n" ++ r ++ "\n") c).steps
  have hX : (Lexer.behind (a ++ "\n") (r ++ "\n" ++ c)).steps = .ok t :: .ok u :: X := by
    rw [hrow, ← hu]
    rfl
  have htk := (hline.inline t List.mem_cons_self).2
  -- How the line breaks
  obtain ⟨s₂, hs₂, hb₂, -, hskip⟩ := s.skipNewlines_blanks h.here
  have hbroken := h.broken
  rw [run_line_congr hskip] at hbroken
  obtain ⟨hout, -⟩ := Parser.bodyLine_broken (hs₂.trans hX) htk hbroken
  rw [hs₂, hX] at hout
  obtain ⟨s₃, -, htwin, -⟩ := h.fork hX htk hout hX hrun
  obtain ⟨he, b, hnoted, hnumber, hlabel⟩ := Parser.bodyLine_leaves hline hC
    (hs₂.trans hrow) (hb₂ ▸ htwin.left) hbroken
  -- How it is mended
  obtain ⟨b', hmend, -⟩ := h.comes.reaches.mended h.broken hrun
  obtain ⟨ds, hb', ha, hds⟩ := hnoted.mend hnumber he hmend
  have hattempt := Mended.run_attempt (Parser.line .body) (some .body) s
  rw [h.broken] at hattempt
  dsimp only at hattempt
  rw [hmend] at hattempt
  refine ⟨t, _, _, hX, htk, hout, hfirst, b, ds, _, ?_, hds, ha, hattempt, ?_, hb'⟩
  · rw [← hb₂]
    exact hlabel
  · have hsame : (Mended.attempt (Parser.line .body) (some .body)).run s₂ =
        (Mended.attempt (Parser.line .body) (some .body)).run s := by
      rw [Mended.run_attempt, Mended.run_attempt, run_line_congr hskip]
    exact (attempt_steps (hb₂ ▸ htwin.self) hline hC (hs₂.trans hrow)
      (hsame.trans hattempt)).resolve_right (Nat.lt_irrefl 1)

/-- Reading goes on behind the line. -/
theorem run_behind (h : BrokenLine a r c o s s' e) {s₀ s₁ : Session}
    (hmended : (Mended.attempt (Parser.line .body) (some .body)).run s = (.ok (some .body), s₁))
    (hrun : (Parser.linesFrom .top).run (Session.start (a ++ "\n" ++ r ++ "\n" ++ c) o) =
      (.ok (), s₀)) : (Parser.linesFrom .body).run s₁ = (.ok (), s₀) := by
  rw [h.comes.reaches.run_linesFrom, run_linesFrom, hmended] at hrun
  exact hrun

end BrokenLine

/-- An empty line in a body is passed over. -/
theorem run_emptyLine {t t' : Session} {nl : Token} {L : List Step}
    (h : t.steps = .ok nl :: L) (hnl : nl.kind.isNewline = true) (hfits : Place.body.Fits t.builder)
    (hrun : (Parser.linesFrom .body).run t = (.ok (), t')) :
    ∃ t₁, (Parser.linesFrom .body).run t₁ = (.ok (), t') ∧ t₁.steps = L ∧
      t₁.builder = t.builder.dropInstruction := by
  have hblank : Blanks t.steps L := h ▸ .newline hnl (.refl L)
  obtain ⟨t₁, ht₁, hb, -, hskip⟩ := t.skipNewlines_blanks hblank
  rw [run_linesFrom_congr (run_line_congr hskip .body)] at hrun
  refine ⟨{ t₁ with builder := t₁.builder.dropInstruction }, ?_, ht₁, ?_⟩
  · exact run_linesFrom_drop (hb ▸ hfits) hrun
  · rw [hb]

/-- A label that is set by one of two runs is set by the other, too. -/
theorem run_labelLine_twin {t t' : Session} {b b' : Builder} {u nl : Token} {L : List Step}
    (htwin : b.Twin .built o .body (t.builder.beginStatement u.line))
    (hset : (Build.setLabel u.lexeme).run b = (.ok (), b'))
    (h : t.steps = .ok u :: .ok nl :: L) (hu : u.kind = .label) (hnl : nl.kind.isNewline = true)
    (hrun : (Parser.linesFrom .body).run t = (.ok (), t')) :
    ∃ t₁ d, (Parser.linesFrom .body).run t₁ = (.ok (), t') ∧ t₁.steps = L ∧
      t₁.builder = d.dropInstruction ∧ b'.Twin .built o .body d := by
  have hline := Parser.run_labelLine h hu hnl
  have hkeeps : (Pairing.twins .built o (fun _ _ => True) fun _ _ => True).Keeps .body
      (Build.setLabel u.lexeme) b (t.builder.beginStatement u.line) :=
    Pairing.twins_setLabel htwin u.lexeme
  unfold Pairing.Keeps at hkeeps
  rw [hset] at hkeeps
  -- Both builders are alike, so the label is new to both or to neither.
  rw [run_linesFrom, Mended.run_attempt] at hrun
  generalize (Build.setLabel u.lexeme).run (t.builder.beginStatement u.line) = r at hkeeps hline
  cases hkeeps with
  | ok htwin' =>
    obtain ⟨t₁, hline, ht₁, hb⟩ := hline
    rw [hline] at hrun
    exact ⟨t₁, _, hrun, ht₁, hb, htwin'⟩
  | right _ =>
    obtain ⟨t₁, hline⟩ := hline
    rw [hline] at hrun
    cases hrun

theorem Dropped.unit_eq {s₁ s₀ t' : Session} {b : Builder} {ds : List Diagnostic} {t : Token}
    {X us : List Step} (h : BrokenLine a r c o s s' e) (hd : Dropped a r c o s s₁ e t b ds)
    (hX : (Lexer.behind (a ++ "\n") (r ++ "\n" ++ c)).steps = .ok t :: X)
    (ht : t.kind.isNewline = false) (hout : ¬Outward (.ok t :: X))
    (hfirst : (Lexer.behind (a ++ "\n") r).steps = .ok t :: us)
    (hs : (Parser.linesFrom .body).run s₁ = (.ok (), s₀))
    (hrun : (Parser.linesFrom .top).run
      (Session.start (a ++ "\n" ++ leadingLabel r ++ "\n" ++ c) o) = (.ok (), t')) :
    s₀.builder.finish.1 = t'.builder.finish.1 := by
  have hsplit := Lexer.steps_behind (a ++ "\n") (leadingLabel r) c
  -- Both runs go on with the same text and builders alike.
  have hgo {t₁ : Session} {d : Builder} (htwin : b.Twin .built o .body d)
      (ht₁ : (Parser.linesFrom .body).run t₁ = (.ok (), t')) (hb : t₁.builder = d.dropInstruction)
      (hsteps : t₁.steps = (Lexer.behind (a ++ "\n" ++ leadingLabel r ++ "\n") c).steps) :
      s₀.builder.finish.1 = t'.builder.finish.1 := by
    refine unit_eq_of_alike (o := o) (q := .body) ?_ ?_ hs ht₁
    · rw [hd.builder, hb]
      exact Pairing.twins_drop (htwin.reported_left trivial hd.tolerated)
    · rw [hd.steps, hsteps]
      exact Lexer.steps_alike rfl rfl trivial
  -- In place of the line there is an empty one, or its label alone.
  obtain ⟨hlabel, rfl⟩ | ⟨hlabel, hset⟩ := hd.label
  · rw [Lexer.leadingLabel_eq_empty hfirst hlabel] at hsplit hrun hgo
    have hnil : (Lexer.behind (a ++ "\n") "").steps = [] := Lexer.steps_of_done rfl
    rw [hnil] at hsplit
    obtain ⟨t₀, ht₀, htwin, hsteps⟩ := h.fork hX ht hout hsplit hrun
    rw [ht₀.run_linesFrom] at hrun
    obtain ⟨t₁, ht₁, hsteps₁, hb⟩ := run_emptyLine hsteps rfl htwin.fits_right hrun
    have hlines : (s.builder.setLine t.line).Twin .built o .body
        (t₀.builder.setLine t₀.builder.line) := htwin.setLines trivial
    exact hgo (Pairing.twins_drop hlines) ht₁ hb hsteps₁
  · obtain ⟨u, htu, hu⟩ := Lexer.steps_leadingLabel hfirst hlabel
    rw [hu] at hsplit
    obtain ⟨t₀, ht₀, htwin, hsteps⟩ := h.fork hX ht hout hsplit hrun
    rw [ht₀.run_linesFrom] at hrun
    rw [htu.lexeme] at hset
    have hlines : (s.builder.setLine t.line).Twin .built o .body (t₀.builder.setLine u.line) :=
      htwin.setLines trivial
    obtain ⟨t₁, d, ht₁, hsteps₁, hb, htwin'⟩ := run_labelLine_twin
      (Pairing.twins_drop hlines) hset hsteps
      (htu.kind.symm.trans hlabel) rfl hrun
    exact hgo htwin' ht₁ hb hsteps₁

/-- What the dropped line has reported: once that its text is malformed, on its own line. -/
theorem Dropped.diagnostics {s₁ : Session} {b : Builder} {ds : List Diagnostic} {t : Token}
    (h : Dropped a r c o s s₁ e t b ds) : ∃ es,
      s₁.builder.diagnostics = s.builder.diagnostics ++ es ∧
      es.filter (·.kind = .malformed) = [⟨.malformed, e.message, lineNumber a⟩] := by
  -- A label that is there twice is reported, but it is not malformed.
  obtain ⟨fs, hfs, hnone⟩ : ∃ fs, b.diagnostics = s.builder.diagnostics ++ fs ∧
      ∀ d ∈ fs, d.kind ≠ .malformed := by
    obtain ⟨-, rfl⟩ | ⟨-, hset⟩ := h.label
    · exact ⟨[], (List.append_nil _).symm, nofun⟩
    · exact Build.setLabel_reports t.lexeme (s.builder.beginStatement t.line) _ _ hset
  refine ⟨fs ++ (ds ++ [⟨.malformed, e.message, lineNumber a⟩]), ?_, ?_⟩
  · rw [h.builder, ← List.append_assoc, ← hfs]
    rfl
  · have hfs : fs.filter (·.kind = .malformed) = [] := by simpa using hnone
    have hds : ds.filter (·.kind = .malformed) = [] := by simpa using h.noted
    rw [List.filter_append, List.filter_append, hfs, hds]
    rfl

/-- A line of a body that breaks counts for its label alone, or for an empty line if it has none.
It is skipped to its end, and of all that it reports one problem is malformed text, on its line. -/
theorem compile_broken_line {ts : List Token} {x : Compiled}
    (hscan : (Lexer.ofString 0 (a ++ "\n" ++ r ++ "\n" ++ c)).tokens = .ok ts)
    (hr : '\n' ∉ r.toList) (h : BrokenLine a r c o s s' e)
    (hx : compile (a ++ "\n" ++ r ++ "\n" ++ c) o = .ok x) :
    (∀ y, compile (a ++ "\n" ++ leadingLabel r ++ "\n" ++ c) o = .ok y → x.unit = y.unit) ∧
    ∃ s₁ ds later,
      (Mended.attempt (Parser.line .body) (some .body)).run s = (.ok (some .body), s₁) ∧
      s₁.steps = (Lexer.behind (a ++ "\n" ++ r ++ "\n") c).steps ∧
      s₁.builder.diagnostics = s.builder.diagnostics ++ ds ∧
      ds.filter (·.kind = .malformed) = [⟨.malformed, e.message, lineNumber a⟩] ∧
      x.diagnostics = s.builder.diagnostics ++ ds ++ later := by
  obtain ⟨s₀, hs₀, rfl⟩ := compile_ok hx
  -- The line is mended, and reading goes on behind it from what its label has built.
  obtain ⟨t, X, us, hX, ht, hout, hfirst, b, ds, s₁, hd⟩ := h.dropped hscan hr hs₀
  have hbehind := h.run_behind hd.mended hs₀
  refine ⟨fun y hy => ?_, ?_⟩
  · obtain ⟨t', ht', rfl⟩ := compile_ok hy
    exact hd.unit_eq h hX ht hout hfirst hbehind ht'
  · obtain ⟨es, hes, hmalformed⟩ := hd.diagnostics
    obtain ⟨later, hlater⟩ := diagnostics_prefix hbehind
    refine ⟨s₁, es, later, hd.mended, hd.steps, hes, hmalformed, ?_⟩
    rw [← hes, hlater]
    exact Builder.finish_diagnostics _

/-- A statement with a value too many behind a label counts for the label alone. -/
theorem compile_broken_line_label : ∃ ts s s' e x y,
    (Lexer.ofString 0 (".sub main" ++ "\n" ++ "again: $I0 = 1 2" ++ "\n" ++
      "noop\n.end\n")).tokens = .ok ts ∧
    '\n' ∉ "again: $I0 = 1 2".toList ∧
    BrokenLine ".sub main" "again: $I0 = 1 2" "noop\n.end\n" .standard s s' e ∧
    compile (".sub main" ++ "\n" ++ "again: $I0 = 1 2" ++ "\n" ++ "noop\n.end\n") .standard =
      .ok x ∧
    compile (".sub main" ++ "\n" ++ leadingLabel "again: $I0 = 1 2" ++ "\n" ++ "noop\n.end\n")
      .standard = .ok y ∧
    leadingLabel "again: $I0 = 1 2" = "again:" ∧ x.unit = y.unit := by
  have hscan : (Lexer.ofString 0 (".sub main" ++ "\n" ++ "again: $I0 = 1 2" ++ "\n" ++
      "noop\n.end\n")).tokens.isOk = true := by decide +kernel
  have hopens : opensBody (".sub main" ++ "\n" ++ "again: $I0 = 1 2" ++ "\n" ++ "noop\n.end\n")
      breaks = true := by decide +kernel
  have hcompiles : compiles (".sub main" ++ "\n" ++ "again: $I0 = 1 2" ++ "\n" ++ "noop\n.end\n")
      (fun _ => true) = true := by decide +kernel
  have hcompiles' : compiles (".sub main" ++ "\n" ++ leadingLabel "again: $I0 = 1 2" ++ "\n" ++
      "noop\n.end\n") (fun _ => true) = true := by decide +kernel
  obtain ⟨ts, hts⟩ := exists_of_isOk hscan
  obtain ⟨s, hcomes, hs, htest⟩ := exists_of_opensBody (by decide) hts (by decide +kernel) hopens
  obtain ⟨e, s', hbroken⟩ := exists_of_breaks htest
  have hline : BrokenLine ".sub main" "again: $I0 = 1 2" "noop\n.end\n" .standard s s' e :=
    ⟨hcomes, hs ▸ .refl _, Lexer.filled_of_atToken (by decide +kernel), hbroken⟩
  obtain ⟨x, hx, -⟩ := exists_of_compiles hcompiles
  obtain ⟨y, hy, -⟩ := exists_of_compiles hcompiles'
  obtain ⟨hunit, -⟩ := compile_broken_line hts (by decide) hline hx
  exact ⟨ts, s, s', e, x, y, hts, by decide, hline, hx, hy, by decide +kernel, hunit y hy⟩

/-! Lines that are reported but not dropped -/

/-- The line `line` of a body is reported once as malformed, and yet it counts for more than its
label alone. -/
structure Undropped (front line rest : String) (s s' : Session) (q : Place) (d : Diagnostic)
    (x y : Compiled) : Prop where
  scans : (Lexer.ofString 0 (front ++ "\n" ++ line ++ "\n" ++ rest)).tokens.isOk = true
  comes : Parser.Comes .top (Session.start (front ++ "\n" ++ line ++ "\n" ++ rest) .standard)
    .body s
  here : Blanks s.steps (Lexer.behind (front ++ "\n") (line ++ "\n" ++ rest)).steps
  read : (Mended.attempt (Parser.line .body) (some .body)).run s = (.ok (some q), s')
  report : s'.builder.diagnostics = s.builder.diagnostics ++ [d]
  malformed : d.kind = .malformed
  own_line : d.line = lineNumber front
  compiled : compile (front ++ "\n" ++ line ++ "\n" ++ rest) .standard = .ok x
  replaced : compile (front ++ "\n" ++ leadingLabel line ++ "\n" ++ rest) .standard = .ok y
  unit_ne : x.unit ≠ y.unit

/-- Whether one problem is reported when a line of a body is read. -/
def reportsOne (d : Diagnostic) (s : Session) : Bool :=
  match (Mended.attempt (Parser.line .body) (some .body)).run s with
  | (.ok (some _), s') => s'.builder.diagnostics = s.builder.diagnostics ++ [d]
  | _ => false

theorem exists_of_reportsOne {d : Diagnostic} {s : Session} (h : reportsOne d s = true) : ∃ q s',
    (Mended.attempt (Parser.line .body) (some .body)).run s = (.ok (some q), s') ∧
      s'.builder.diagnostics = s.builder.diagnostics ++ [d] := by
  unfold reportsOne at h
  split at h
  next q s' hrun => exact ⟨q, s', hrun, of_decide_eq_true h⟩
  next => cases h

/-- Units of different sizes tell that a line is not dropped. -/
theorem exists_undropped {header line rest : String} {d : Diagnostic} (ns ms : List Nat)
    (hne : ns ≠ ms) (hheader : '\n' ∉ header.toList)
    (hscan : (Lexer.ofString 0 (header ++ "\n" ++ line ++ "\n" ++ rest)).tokens.isOk = true)
    (hfirst : (Lexer.ofString 0 (header ++ "\n" ++ line ++ "\n" ++ rest)).atToken = true)
    (hopens : opensBody (header ++ "\n" ++ line ++ "\n" ++ rest) (reportsOne d) = true)
    (hd : d.kind = .malformed ∧ d.line = lineNumber header)
    (hx : compiles (header ++ "\n" ++ line ++ "\n" ++ rest) (·.unit.sizes = ns) = true)
    (hy : compiles (header ++ "\n" ++ leadingLabel line ++ "\n" ++ rest)
      (·.unit.sizes = ms) = true) :
    ∃ s s' q x y, Undropped header line rest s s' q d x y := by
  obtain ⟨ts, hts⟩ := exists_of_isOk hscan
  obtain ⟨s, hcomes, hs, htest⟩ := exists_of_opensBody hheader hts hfirst hopens
  obtain ⟨q, s', hread, hreport⟩ := exists_of_reportsOne htest
  obtain ⟨x, hx, hns⟩ := exists_of_compiles hx
  obtain ⟨y, hy, hms⟩ := exists_of_compiles hy
  have hunit : x.unit ≠ y.unit := by
    intro h
    rw [h] at hns
    exact hne ((of_decide_eq_true hns).symm.trans (of_decide_eq_true hms))
  exact ⟨s, s', q, x, y, hscan, hcomes, hs ▸ .refl _, hread, hreport, hd.1, hd.2, hx, hy, hunit⟩

/-- A `.end` with more behind it ends the subroutine all the same, and a `.sub` in a body ends the
subroutine that is open and begins another one. -/
theorem compile_undropped_line :
    (∃ s s' q d x y, Undropped ".sub main" ".end x" "noop\n.end\n" s s' q d x y) ∧
    ∃ s s' q d x y, Undropped ".sub main" ".sub other" ".end\n" s s' q d x y := by
  constructor
  · let d : Diagnostic := ⟨.malformed, "syntax error, unexpected 'x', expecting newline", 2⟩
    have hopens : opensBody (".sub main" ++ "\n" ++ ".end x" ++ "\n" ++ "noop\n.end\n")
        (reportsOne d) = true := by decide +kernel
    obtain ⟨s, s', q, x, y, h⟩ := exists_undropped [0] [1] (by decide) (by decide)
      (by decide +kernel) (by decide +kernel) hopens (by decide) (by decide +kernel)
      (by decide +kernel)
    exact ⟨s, s', q, d, x, y, h⟩
  · let d : Diagnostic := ⟨.malformed, "syntax error, unexpected '.sub', expecting '.end'", 2⟩
    have hopens : opensBody (".sub main" ++ "\n" ++ ".sub other" ++ "\n" ++ ".end\n")
        (reportsOne d) = true := by decide +kernel
    obtain ⟨s, s', q, x, y, h⟩ := exists_undropped [0, 0] [0] (by decide) (by decide)
      (by decide +kernel) (by decide +kernel) hopens (by decide) (by decide +kernel)
      (by decide +kernel)
    exact ⟨s, s', q, d, x, y, h⟩

end PirFrontend
