import PirFrontend.Proofs.Parting

/-!
Texts that are joined where no subroutine is open. The first one is read as it is read alone, and so
is the second one from there on: it is built from nothing again, and its problems are charged to
lines that are further down.
-/
namespace PirFrontend

open PirFrontend.Parser (Place Block)

/-- The problem, `k` lines further down. -/
def Diagnostic.lower (k : Nat) (d : Diagnostic) : Diagnostic := { d with line := d.line + k }

/-- A build behind another one, from which it has these subroutines and problems, and which was
`k` lines long. -/
def Likeness.behind (k : Nat) (subs : List Subroutine) (ds : List Diagnostic) : Likeness where
  unit u v := v.subroutines = subs ++ u.subroutines ∧ u.SameNames v
  line l m := m = l + k
  told es fs := fs = ds ++ es.map (·.lower k)
  names h := h.2
  change := by
    rintro u v f added ⟨hsubs, hnames⟩ hf
    exact ⟨by rw [hf.subroutines, hf.subroutines, hsubs, List.append_assoc], hf.names hnames⟩
  later := by
    rintro l _ n rfl
    exact Nat.add_right_comm l k n
  tell := by
    rintro es _ l _ kind message rfl rfl
    simp [Diagnostic.lower]

/-- A build in which nothing was built before. -/
abbrev Likeness.same : Likeness := .behind 0 [] []

theorem Diagnostic.lower_zero (ds : List Diagnostic) : ds.map (·.lower 0) = ds := List.map_id ds

instance : Likeness.same.Reflexive :=
  ⟨fun _ => ⟨rfl, rfl, rfl, rfl⟩, fun _ => rfl, fun ds => (Diagnostic.lower_zero ds).symm⟩

/-! The end of the text -/

/-- Where a subroutine is open at the end of the text, that is reported. -/
theorem linesFrom_end_open {p : Place} {s s' : Session} (hp : p ≠ .top) (h : s.steps = [])
    (hrun : (Parser.linesFrom p).run s = (.ok (), s')) : ∃ d ∈ s'.builder.diagnostics,
      d.message = "syntax error, unexpected end of file, expecting '.end'" := by
  have hbody {s : Session} (h : s.steps = [])
      (hrun : (Parser.linesFrom .body).run s = (.ok (), s')) : ∃ d ∈ s'.builder.diagnostics,
        d.message = "syntax error, unexpected end of file, expecting '.end'" := by
    obtain ⟨ts, hline, -⟩ := run_line_body_end h
    rw [run_linesFrom, Mended.run_attempt, hline] at hrun
    generalize hr : (Build.malformed _).run s.builder = r at hrun
    obtain ⟨f | _, b⟩ := r
    · cases hrun
    · obtain ⟨-, -, rfl⟩ := Build.run_report_ok hr
      have hprefix := diagnostics_prefix hrun
      rw [(Builder.closeSub_same _).diagnostics] at hprefix
      exact ⟨_, hprefix.subset (List.mem_append_right _ List.mem_cons_self), rfl⟩
  cases p with
  | top => exact absurd rfl hp
  | body => exact hbody h hrun
  | block k =>
    -- The block is left for the body, which ends there, too.
    obtain ⟨ts, hline, -, hts⟩ := run_line_block_end h k
    rw [run_linesFrom, Mended.run_attempt, hline] at hrun
    generalize (Build.malformed _).run s.builder = r at hrun
    obtain ⟨f | _, b⟩ := r
    · cases hrun
    · exact hbody (s := ⟨ts, b.dropInstruction⟩) hts hrun

theorem linesFrom_end_top {s s' : Session} (h : s.steps = [])
    (hrun : (Parser.linesFrom .top).run s = (.ok (), s')) : s'.builder = s.builder := by
  obtain ⟨ts, hline, -⟩ := run_line_top_end h
  rw [run_linesFrom, Mended.run_attempt, hline] at hrun
  cases hrun
  rfl

/-! What the builder knows of lines -/

/-- Only a fault can keep a line from being begun. -/
theorem Parser.opening_reads (ts : TokenStream) : ∃ r ts',
    (∀ b, (do skipNewlines; TokenStream.peek 0 : Parser (Option Token)).run ⟨ts, b⟩ =
      (r, ⟨ts', b⟩)) ∧ ∀ e, r = .error e → ∃ f, e = .broken (.ofFault f) := by
  obtain ⟨r, ts', hreads⟩ := (onlyReads_skipNewlines.bind fun _ =>
    .lift (TokenStream.peek 0)) ts
  refine ⟨r, ts', hreads, ?_⟩
  rintro e rfl
  have hrun := hreads (.new .standard)
  obtain ⟨L, hL, hfilled⟩ := exists_filled ts.steps
  obtain ⟨s, rfl, -, -, hskip⟩ :=
    Session.skipNewlines_blanks (s := ⟨ts, .new .standard⟩) hL
  obtain ⟨s₁, hskip₁, hs₁, -⟩ := s.skipNewlines_filled hfilled
  obtain ⟨s₂, hpeek, -⟩ := s₁.run_peek (Nat.zero_le _)
  rw [run_bind, hskip, hskip₁] at hrun
  rw [hs₁] at hpeek
  cases hL : s.steps with
  | nil =>
    rw [hL] at hrun hpeek
    cases hpeek.symm.trans hrun
  | cons step M =>
    rw [hL] at hrun hpeek
    cases step with
    | error f =>
      cases hrun
      exact ⟨f, rfl⟩
    | ok t => cases hpeek.symm.trans hrun

theorem Builder.finish_idle {b : Builder} (h : b.Idle) : b.finish = (b.unit, b.diagnostics) := by
  unfold finish
  rw [closeSub_of_none h.current]

theorem Builder.Idle.finish_setLine {b : Builder} (h : b.Idle) (line : Nat) :
    (b.setLine line).finish = b.finish := by
  have hline : (b.setLine line).Idle :=
    ⟨h.current, h.pendingLabel, h.pendingInstruction, h.pendingCall⟩
  rw [finish_idle hline, finish_idle h]
  rfl

/-- Outside of subroutines it makes no difference which line was the last. -/
theorem run_linesFrom_setLine {s s' : Session} (hidle : s.builder.Idle)
    (h : (Parser.linesFrom .top).run s = (.ok (), s')) (line : Nat) : ∃ s'',
      (Parser.linesFrom .top).run { s with builder := s.builder.setLine line } = (.ok (), s'') ∧
      s''.builder.finish = s'.builder.finish := by
  obtain ⟨ts, b⟩ := s
  obtain ⟨r, ts', hreads, hfault⟩ := Parser.opening_reads ts
  have hitem : Parser.item = (do Parser.skipNewlines; TokenStream.peek 0) >>= _ :=
    (bind_assoc _ _ _).symm
  have hline (b : Builder) : (Parser.line .top).run ⟨ts, b⟩ = Parser.item.run ⟨ts, b⟩ := rfl
  rw [run_linesFrom, Mended.run_attempt, hline, hitem, run_bind, hreads] at h ⊢
  obtain e | (_ | t) := r
  · -- A fault is charged to its own line.
    obtain ⟨f, rfl⟩ := hfault e rfl
    dsimp only at h ⊢
    rw [Build.run_mend] at h ⊢
    exact ⟨s', h, rfl⟩
  · cases h
    exact ⟨⟨ts', b.setLine line⟩, rfl, hidle.finish_setLine line⟩
  · -- A line that begins is the last one.
    exact ⟨s', h, rfl⟩

/-! In front of the junction -/

variable {o : BuildOptions} {s s' t t' : Session}

/-- Two texts, one of which ends where the other goes on with `X`. If it leaves no subroutine open,
the other one comes there with the same build. -/
theorem Forking.junction {X : List Step} (hrel : s.builder.Twin .same o .top t.builder)
    (hfork : Forking .same X [] s.steps t.steps)
    (hs : (Parser.linesFrom .top).run s = (.ok (), s'))
    (ht : (Parser.linesFrom .top).run t = (.ok (), t'))
    (hclosed : ∀ d ∈ t'.builder.diagnostics,
      d.message ≠ "syntax error, unexpected end of file, expecting '.end'") :
    ∃ s₁, s₁.builder.Twin .same o .top t'.builder ∧
      (s₁ = s' ∧ X = [] ∨ s₁.steps = X ∧ (Parser.linesFrom .top).run s₁ = (.ok (), s')) := by
  have := Pairing.twins_continuing (o := o) (textual_fork (A := .same) (X := X) (Y := []) nofun)
  have hout := Pairing.lines_outcome
    (P := .twins .same o (Fork .same X []) (Forked X [])) hrel (.inl (.inl hfork))
  -- A subroutine or a block that is open at the end would be reported.
  have hopen {q : Place} {t₁ : Session} (hreach : Parser.Reaches .top t q t₁)
      (hend : t₁.steps = []) : q = .top := by
    by_contra hq
    obtain ⟨d, hd, hmessage⟩ := linesFrom_end_open hq hend (hreach.run_linesFrom ▸ ht)
    exact hclosed d hd hmessage
  cases hout with
  | stopped _ _ h => exact h.elim
  | left h _ => cases hs.symm.trans h
  | right h _ => cases ht.symm.trans h
  | ended hs₁ ht₁ hrel hm =>
    cases hs.symm.trans hs₁
    cases ht.symm.trans ht₁
    cases hm with
    | nil h =>
      obtain h | ⟨rfl, -⟩ := h
      · cases h
      · exact ⟨s', hrel, .inl ⟨rfl, rfl⟩⟩
  | @askew q s₁ t₁ hs₁ ht₁ hrel ha =>
    -- The first text is over here, and the other one goes on.
    obtain ⟨rfl, hend⟩ := ha
    obtain rfl := hopen ht₁ hend
    have hbuilder : t'.builder = t₁.builder :=
      linesFrom_end_top hend (ht₁.run_linesFrom.symm.trans ht)
    exact ⟨s₁, hbuilder ▸ hrel, .inr ⟨rfl, hs₁.run_linesFrom.symm.trans hs⟩⟩
  | @crossed s₀ t₀ s₁ t₁ e e' _ _ _ ht₀ _ he' _ hY ha _ =>
    -- A line that looks across the end of the text stands in a subroutine.
    obtain ⟨-, rfl⟩ := ha
    obtain ⟨c, -, ht₂⟩ := ht₀.mended he' ht
    have hend := hopen ht₂ ((TokenStream.steps_skipLine _).trans hY)
    cases hend

/-! Behind the junction -/

namespace Builder

/-- Where nothing waits, the builder is a new one up to what was built and told. -/
theorem Idle.eq_retold {b : Builder} (h : b.Idle) (ho : b.options = o)
    (hops : b.opcodes = (new o).opcodes) (ha : b.aborted = false) :
    b = (new o).retold b.unit b.diagnostics b.line := by
  obtain ⟨options, opcodes, unit, current, label, instruction, call, ds, line, aborted⟩ := b
  obtain ⟨rfl, rfl, rfl, rfl⟩ := h
  obtain rfl : options = o := ho
  obtain rfl : opcodes = _ := hops
  obtain rfl : aborted = false := ha
  rfl

/-- What is built next is built as if nothing was built before. -/
theorem Twin.restart {b c : Builder} (h : b.Twin .same o .top c)
    (hconstants : c.unit.constants = .empty) (hglobals : c.unit.globalConstants = .empty)
    (hkey : c.unit.namespaceKey = none) (k : Nat) :
    (new o).Twin (.behind k c.unit.subroutines c.diagnostics) o .top (b.setLine (1 + k)) := by
  have hnames := h.names
  have hnew := congrArg (·.setLine (1 + k))
    (h.fits.eq_retold h.options h.opcodes h.left.aborted)
  refine ⟨rfl, rfl, ⟨b.unit, b.diagnostics, 1 + k, hnew, ⟨?_, ?_⟩, ?_, rfl⟩, new_ongoing o,
    h.left.of_same ⟨rfl, rfl, rfl⟩, new_idle o⟩
  · obtain ⟨u, ds, l, rfl, ⟨hsubs, -⟩, -⟩ := h.same
    exact hsubs.symm.trans (List.append_nil u.subroutines).symm
  · exact ⟨(hnames.constants.trans hconstants).symm, (hnames.globalConstants.trans hglobals).symm,
      (hnames.namespaceKey.trans hkey).symm⟩
  · obtain ⟨u, ds, l, rfl, -, htold, -⟩ := h.same
    exact (htold.trans (Diagnostic.lower_zero _)).symm.trans (List.append_nil ds).symm

end Builder

/-- What two builds have come to in the end, the second of which was behind another one. -/
theorem Builder.Twin.finish {k : Nat} {subs : List Subroutine} {ds : List Diagnostic}
    {b c : Builder} (h : b.Twin (.behind k subs ds) o .top c) :
    c.finish.1.subroutines = subs ++ b.finish.1.subroutines ∧
      c.finish.2 = ds ++ b.finish.2.map (·.lower k) := by
  have hidle : b.Idle := h.fits
  have hidle' : c.Idle := h.fits_right
  rw [finish_idle hidle, finish_idle hidle']
  obtain ⟨u, _, l, rfl, ⟨hsubs, -⟩, rfl, -⟩ := h.same
  exact ⟨hsubs, rfl⟩

/-! Texts that are joined -/

variable {a p q : String} {x y z : Compiled}

/-- The steps of a text that ends with a newline, and of one that goes on. -/
theorem forking_source (o : BuildOptions) (a q : String) :
    Forking .same (Lexer.behind (a ++ "\n") q).steps [] (Session.start (a ++ "\n" ++ q) o).steps
      (Session.start (a ++ "\n") o).steps := by
  have hnil : (Lexer.behind (a ++ "\n") "").steps = [] := Lexer.steps_of_done rfl
  have hend := Lexer.steps_source o a ""
  rw [String.append_empty, hnil] at hend
  rw [Lexer.steps_source, hend]
  exact forking_append _ (.refl _) rfl _ _

/-- A text is read behind another one as it is read alone, further down. -/
theorem alike_behind (o : BuildOptions) (p q : String) (subs : List Subroutine)
    (ds : List Diagnostic) : List.Forall₂ (StepLike (.behind (p.toList.count '\n') subs ds))
      (Session.start q o).steps (Lexer.behind p q).steps := by
  show List.Forall₂ _ (Lexer.ofString 0 q).steps _
  exact Lexer.steps_alike rfl rfl rfl

/-- Reading comes to the same behind another text, be it over there or not. -/
theorem linesFrom_behind {X : List Step} {k : Nat} {subs : List Subroutine} {ds : List Diagnostic}
    {s₁ : Session} (h : t.builder.Twin (.behind k subs ds) o .top (s₁.builder.setLine (1 + k)))
    (hidle : s₁.builder.Idle) (halike : List.Forall₂ (StepLike (.behind k subs ds)) t.steps X)
    (ht : (Parser.linesFrom .top).run t = (.ok (), t'))
    (hs : s₁ = s' ∧ X = [] ∨ s₁.steps = X ∧ (Parser.linesFrom .top).run s₁ = (.ok (), s')) :
    ∃ c, t'.builder.Twin (.behind k subs ds) o .top c ∧ c.finish = s'.builder.finish := by
  obtain ⟨rfl, rfl⟩ | ⟨rfl, hs⟩ := hs
  · have hend : t'.builder = t.builder :=
      linesFrom_end_top (List.forall₂_nil_right_iff.1 halike) ht
    exact ⟨_, hend ▸ h, hidle.finish_setLine _⟩
  · obtain ⟨s'', hs'', hfinish⟩ := run_linesFrom_setLine hidle hs (1 + k)
    have htwin := twin_of_alike (t := { s₁ with builder := s₁.builder.setLine (1 + k) }) h halike ht
      hs''
    exact ⟨s''.builder, htwin, hfinish⟩

/-- Subroutines are compiled independently. Let `p` end with a newline and leave nothing behind that
the next text could see: no open subroutine, no constants of the file or for every file, and no
namespace. Then what comes of a text behind it is what comes of this text alone, further down. -/
theorem compile_append (hp : ∃ a, p = a ++ "\n") (hx : compile p o = .ok x)
    (hy : compile q o = .ok y) (hz : compile (p ++ q) o = .ok z)
    (hclosed : ∀ d ∈ x.diagnostics,
      d.message ≠ "syntax error, unexpected end of file, expecting '.end'")
    (hconstants : x.unit.constants = .empty) (hglobals : x.unit.globalConstants = .empty)
    (hkey : x.unit.namespaceKey = none) :
    z.unit.subroutines = x.unit.subroutines ++ y.unit.subroutines ∧
      z.diagnostics = x.diagnostics ++ y.diagnostics.map (·.lower (p.toList.count '\n')) := by
  obtain ⟨a, rfl⟩ := hp
  obtain ⟨t', ht, rfl⟩ := compile_ok hx
  obtain ⟨u', hu, rfl⟩ := compile_ok hy
  obtain ⟨s', hs, rfl⟩ := compile_ok hz
  dsimp only at *
  rw [Builder.finish_diagnostics] at hclosed
  -- Both runs come to the end of the first text, and the second text is read from a new build.
  obtain ⟨s₁, htwin, hs₁⟩ := (forking_source o a q).junction (Builder.new_twin .same o) hs
    ht hclosed
  rw [Builder.finish_idle htwin.fits_right] at *
  have hrestart := htwin.restart hconstants hglobals hkey ((a ++ "\n").toList.count '\n')
  obtain ⟨c, hc, hfinish⟩ := linesFrom_behind (t := Session.start q o) hrestart htwin.fits
    (alike_behind o (a ++ "\n") q _ _) hu hs₁
  rw [← hfinish]
  exact hc.finish

/-- A name and a label of one subroutine are unknown in the next one, whose problem moves down. -/
theorem compile_append_undeclared : ∃ x y z,
    compile (".sub a\n.local int x\nl:\nx = y\n.end" ++ "\n") .standard = .ok x ∧
    compile ".sub b\nl:\n$I0 = x\n.end\n" .standard = .ok y ∧
    compile (".sub a\n.local int x\nl:\nx = y\n.end" ++ "\n" ++ ".sub b\nl:\n$I0 = x\n.end\n")
      .standard = .ok z ∧
    (∀ d ∈ x.diagnostics, d.message ≠ "syntax error, unexpected end of file, expecting '.end'") ∧
    x.unit.constants = .empty ∧ x.unit.globalConstants = .empty ∧ x.unit.namespaceKey = none ∧
    x.diagnostics ≠ [] ∧ y.diagnostics ≠ [] ∧
    z.unit.subroutines = x.unit.subroutines ++ y.unit.subroutines ∧
    z.diagnostics = x.diagnostics ++ y.diagnostics.map (·.lower 5) := by
  have hx : compiles (".sub a\n.local int x\nl:\nx = y\n.end" ++ "\n") (fun c =>
      c.diagnostics.all (·.message ≠ "syntax error, unexpected end of file, expecting '.end'") &&
      (c.unit.constants.entries.isEmpty && (c.unit.globalConstants.entries.isEmpty &&
      (c.unit.namespaceKey.isNone && !c.diagnostics.isEmpty)))) = true := by decide +kernel
  have hy : compiles ".sub b\nl:\n$I0 = x\n.end\n" (!·.diagnostics.isEmpty) = true := by
    decide +kernel
  have hz : compiles (".sub a\n.local int x\nl:\nx = y\n.end" ++ "\n" ++
      ".sub b\nl:\n$I0 = x\n.end\n") (fun _ => true) = true := by decide +kernel
  have hcount : (".sub a\n.local int x\nl:\nx = y\n.end" ++ "\n").toList.count '\n' = 5 := by
    decide +kernel
  obtain ⟨x, hx, htest⟩ := exists_of_compiles hx
  obtain ⟨y, hy, hytold⟩ := exists_of_compiles hy
  obtain ⟨z, hz, -⟩ := exists_of_compiles hz
  simp only [Bool.and_eq_true, List.isEmpty_iff, Option.isNone_iff_eq_none, List.all_eq_true,
    decide_eq_true_eq, Bool.not_eq_true', List.isEmpty_eq_false_iff] at htest hytold
  obtain ⟨hclosed, hconstants, hglobals, hkey, hxtold⟩ := htest
  have hempty {t : Table Constant} (h : t.entries = []) : t = .empty := congrArg Table.mk h
  have happend := compile_append ⟨_, rfl⟩ hx hy hz hclosed (hempty hconstants) (hempty hglobals)
    hkey
  rw [hcount] at happend
  exact ⟨x, y, z, hx, hy, hz, hclosed, hempty hconstants, hempty hglobals, hkey, hxtold, hytold,
    happend⟩

end PirFrontend
