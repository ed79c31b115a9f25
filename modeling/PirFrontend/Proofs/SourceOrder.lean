import PirFrontend.Proofs.Joins
import PirFrontend.Proofs.Mirrors

/-!
Problems are reported in the order of the source. On a line they are charged to its number, and a
rule that breaks when it has looked across the end of its line is charged to the line it saw there.
Reading goes on with that line, so no later problem is charged to a line in front.
-/
namespace PirFrontend

open PirFrontend.Parser (Place)

/-! The numbers of lines -/

/-- Steps whose lines are numbered from `k` on, up to `last`. -/
inductive Numbered (last : Nat) : Nat → List Step → Prop
  | nil {k : Nat} : k ≤ last → Numbered last k []
  | newline {k n : Nat} {t : Token} {L : List Step} : t.line = k → t.kind.isNewline = true →
      k ≤ n → Numbered last n L → Numbered last k (.ok t :: L)
  | inline {k : Nat} {step : Step} {L : List Step} : step.Inline k → Numbered last k L →
      Numbered last k (step :: L)

namespace Numbered

variable {last k : Nat} {L M : List Step}

theorem le (h : Numbered last k L) : k ≤ last := by
  induction h with
  | nil h => exact h
  | newline _ _ hkn _ ih => exact Nat.le_trans hkn ih
  | inline _ _ ih => exact ih

theorem append (hL : ∀ step ∈ L, step.Inline k) (h : Numbered last k M) :
    Numbered last k (L ++ M) := by
  induction L with
  | nil => exact h
  | cons step L ih =>
    have hstep := hL step List.mem_cons_self
    exact .inline hstep (ih fun step hs => hL step (List.mem_cons_of_mem _ hs))

/-- Behind empty lines the numbers are as large or larger. -/
theorem blanks (h : Numbered last k L) (hM : Blanks L M) : ∃ n, k ≤ n ∧ Numbered last n M := by
  induction hM generalizing k with
  | refl => exact ⟨k, Nat.le_refl k, h⟩
  | newline ht _ ih =>
    cases h with
    | newline _ _ hkn h =>
      obtain ⟨m, hnm, hm⟩ := ih h
      exact ⟨m, Nat.le_trans hkn hnm, hm⟩
    | inline hstep _ =>
      rw [hstep.2] at ht
      cases ht

/-- A look at the next token may take a fault away. -/
theorem glance (h : Numbered last k L) : Numbered last k (lookAt 0 L).2 := by
  cases h with
  | nil h => exact .nil h
  | newline hline ht hkn h => exact .newline hline ht hkn h
  | @inline _ step _ hstep h =>
    cases step with
    | error f => exact h
    | ok t => exact .inline hstep h

end Numbered

/-- The lines of a text are numbered up to the number of its newlines. -/
theorem Lexer.steps_numbered (l : Lexer) :
    Numbered (l.line + l.rest.count '\n') l.line l.steps := by
  induction l using line_induction with
  | last l hl =>
    have hsteps := Numbered.append (M := []) (fun step => inline_of_mem_steps hl)
      (.nil (Nat.le_add_right l.line (l.rest.count '\n')))
    rwa [List.append_nil] at hsteps
  | line l b hl ih =>
    have hlast : (l.followed b).line + (l.followed b).rest.count '\n' =
        (l.past b).line + (l.past b).rest.count '\n' := by
      show l.line + (l.rest ++ '\n' :: b).count '\n' = (l.past b).line + b.count '\n'
      rw [past_line hl, List.append_cons, List.count_append, List.count_append,
        List.count_eq_zero.2 hl, ← Nat.add_assoc]
      rfl
    rw [steps_followed, hlast]
    refine .append (fun step => inline_of_mem_steps hl) (.newline (newlineToken_line hl) rfl ?_ ih)
    rw [past_line hl]
    exact Nat.le_succ _

/-! What was reported -/

/-- Problems were reported in the order of their lines, up to the current line, which is not behind
line `k`. -/
structure Builder.InOrder (k : Nat) (b : Builder) : Prop where
  ordered : b.diagnostics.Pairwise fun d e => d.line ≤ e.line
  within : ∀ d ∈ b.diagnostics, 1 ≤ d.line ∧ d.line ≤ b.line
  positive : 1 ≤ b.line
  line : b.line ≤ k

namespace Builder.InOrder

variable {k l n : Nat} {b c : Builder}

theorem new (o : BuildOptions) : (Builder.new o).InOrder 1 :=
  ⟨.nil, nofun, Nat.le_refl 1, Nat.le_refl 1⟩

theorem mono (h : b.InOrder k) (hkn : k ≤ n) : b.InOrder n :=
  { h with line := Nat.le_trans h.line hkn }

/-- Problems on the current line come last. -/
theorem charges (h : b.InOrder k) (hc : b.Charges c) : c.InOrder k := by
  obtain ⟨hline, ds, hds, hon⟩ := hc
  refine ⟨?_, ?_, hline ▸ h.positive, hline ▸ h.line⟩
  · rw [hds, List.pairwise_append]
    refine ⟨h.ordered, List.pairwise_of_forall_mem_list fun d hd e he => ?_, fun d hd e he => ?_⟩
    · exact Nat.le_of_eq ((hon d hd).trans (hon e he).symm)
    · rw [hon e he]
      exact (h.within d hd).2
  · intro d hd
    rw [hds] at hd
    rw [hline]
    obtain hd | hd := List.mem_append.1 hd
    · exact h.within d hd
    · rw [hon d hd]
      exact ⟨h.positive, Nat.le_refl _⟩

theorem setLine (h : b.InOrder k) (hkl : k ≤ l) : (b.setLine l).InOrder l := by
  have hbl : b.line ≤ l := Nat.le_trans h.line hkl
  refine ⟨h.ordered, fun d hd => ?_, Nat.le_trans h.positive hbl, Nat.le_refl l⟩
  obtain ⟨hpositive, hline⟩ := h.within d hd
  exact ⟨hpositive, Nat.le_trans hline hbl⟩

/-- A broken rule on the line or on the next one is mended in order. -/
theorem mend (h : b.InOrder k) (hkn : k ≤ n) {e : ParseError}
    (he : ∀ l, e.line? = some l → l = k ∨ l = n) : ((Build.mend e).run b).2.InOrder n := by
  have hline : (b.setLine (e.line?.getD b.line)).InOrder n := by
    cases hl : e.line? with
    | none => exact h.mono hkn
    | some l =>
      obtain rfl | rfl := he l hl
      · exact (h.setLine (Nat.le_refl l)).mono hkn
      · exact h.setLine hkn
  have hreport : (Build.malformed e.message).Moves (fun _ => True)
      (b.setLine (e.line?.getD b.line)) := Build.report_moves .malformed e.message
  rw [Build.run_mend]
  exact hline.charges hreport.charges

end Builder.InOrder

/-! One line -/

/-- The same is left of a text, where line `n` begins. -/
def Onward (last n : Nat) (L M : List Step) : Prop := L = M ∧ Numbered last n L

namespace Mirror

variable {last k n : Nat}

/-- A run that reads line `k`, with line `n` behind it. Nothing is charged to another line, unless
the rule looks across the end of its line. -/
def onLine (last k n : Nat) : Mirror where
  inv := Builder.InOrder k
  place := (· = k)
  charged := (· = k)
  start := Onward last n
  askew := Onward last n

/-- The same run, where a broken rule is charged to either line. -/
def acrossLines (last k n : Nat) : Mirror where
  inv _ := True
  place := (· = k)
  charged l := l = k ∨ l = n
  start := Onward last n
  askew _ _ := False

theorem onLine_faithful : (onLine last k n).Faithful where
  charges hc h := h.charges hc
  setLine hl h := hl ▸ h.setLine (Nat.le_of_eq hl.symm)
  charged h := h
  glimpse h := .inr h

theorem acrossLines_faithful : (acrossLines last k n).Faithful where
  charges _ _ := trivial
  setLine _ _ := trivial
  charged h := .inl h
  glimpse := by
    rintro L _ ⟨rfl, h⟩
    refine .inl ?_
    cases h with
    | nil _ => exact .nil
    | newline _ _ _ _ => exact .token rfl
    | @inline _ step L hstep h =>
      cases step with
      | ok t => exact .token rfl
      | error f =>
        refine .fault ⟨⟨rfl, .some rfl⟩, ?_⟩ ⟨rfl, h⟩
        rintro l ⟨⟩
        exact .inr hstep

theorem mid_of_numbered {L : List Step} (h : Numbered last k L) :
    ∃ n, k ≤ n ∧ (onLine last k n).pairing.mid L L := by
  induction h with
  | @nil k h => exact ⟨k, Nat.le_refl k, .nil ⟨rfl, .nil h⟩⟩
  | newline hline ht hkn h => exact ⟨_, hkn, .newline ⟨.refl _, hline⟩ ht ⟨rfl, h⟩⟩
  | @inline k step L hstep _ ih =>
    obtain ⟨n, hkn, hmid⟩ := ih
    refine ⟨n, hkn, ?_⟩
    cases step with
    | ok t => exact .token ⟨.refl t, hstep.1⟩ hstep.2 hmid
    | error f =>
      refine .fault ⟨⟨rfl, .some rfl⟩, ?_⟩ hmid
      rintro l ⟨⟩
      exact hstep

theorem numbered_of_mid (hkn : k ≤ n) {L M : List Step}
    (h : (onLine last k n).pairing.mid L M) : Numbered last k L := by
  unfold Pairing.mid at h
  induction h with
  | nil h => exact .nil (Nat.le_trans hkn h.2.le)
  | newline htu ht h => exact .newline htu.2 ht hkn h.2
  | token htu ht _ ih => exact .inline ⟨htu.2, ht⟩ ih
  | fault hfg _ ih => exact .inline (hfg.2 _ rfl) ih

theorem mid_acrossLines {L M : List Step} (h : (onLine last k n).pairing.mid L M) :
    (acrossLines last k n).pairing.mid L M :=
  InLine.imp h id (fun he => ⟨he.1, fun l hl => .inl (he.2 l hl)⟩) id

/-- A broken rule is charged to the line it stands on, or to the next one. -/
theorem line_broken {p : Place} {s s' : Session} {e : ParseError}
    (hmid : (onLine last k n).pairing.mid s.steps s.steps) (hf : Filled s.steps)
    (hrun : (Parser.line p).run s = (.error (.broken e), s')) :
    ∀ l, e.line? = some l → l = k ∨ l = n := by
  have : (acrossLines last k n).pairing.Lawful := acrossLines_faithful.lawful
  have hstart : (acrossLines last k n).pairing.Mid p [] s s :=
    ⟨⟨rfl, trivial⟩, mid_acrossLines hmid, trivial⟩
  have hruns := Pairing.line_runs hstart hf hf
  unfold Pairing.Runs at hruns
  rw [hrun] at hruns
  cases hruns with
  | broken _ _ he _ => exact he.2
  | crossed _ _ _ _ _ ha _ => exact ha.elim

end Mirror

/-- What was reported is in order, and what is left to read stands behind it. -/
def Session.InOrder (last : Nat) (s : Session) : Prop :=
  ∃ k, s.builder.InOrder k ∧ Numbered last k s.steps

/-- What a line leads to is in order. -/
def KeepsOrder (last : Nat) : Except Fatal (Option Place) × Session → Prop
  | (.ok (some _), s) => s.InOrder last
  | (.ok none, s) => s.builder.InOrder last
  | (.error _, s) => s.builder.InOrder last

namespace Session.InOrder

variable {last : Nat} {p : Place} {s : Session}

/-- A line that broke when it had looked across its end is mended in order. -/
theorem mend {k n : Nat} {s' : Session} {e : ParseError} {L : List Step} (hkn : k ≤ n)
    (hb : s'.builder.InOrder k) (he : ∀ l, e.line? = some l → l = k ∨ l = n)
    (hL : Numbered last n L) (hs : afterLine s'.steps = (lookAt 0 L).2)
    (hrun : (Parser.line p).run s = (.error (.broken e), s')) :
    KeepsOrder last ((Mended.attempt (Parser.line p) (some p)).run s) := by
  have hmended := hb.mend hkn he
  rw [Mended.run_attempt, hrun]
  dsimp only
  revert hmended
  generalize (Build.mend e).run s'.builder = r
  intro hmended
  obtain ⟨f | _, b⟩ := r
  · exact hmended.mono hL.le
  · refine ⟨n, hmended.charges (Builder.charges_of_eq rfl rfl), ?_⟩
    show Numbered last n s'.tokens.skipLine.2.steps
    rw [TokenStream.steps_skipLine, ← Session.steps, hs]
    exact hL.glance

theorem attempt_filled (h : s.InOrder last) (hf : Filled s.steps) (p : Place) :
    KeepsOrder last ((Mended.attempt (Parser.line p) (some p)).run s) := by
  obtain ⟨k, hb, hs⟩ := h
  obtain ⟨n, hkn, hmid⟩ := Mirror.mid_of_numbered hs
  have : (Mirror.onLine last k n).pairing.Lawful := Mirror.onLine_faithful.lawful
  have hstart : (Mirror.onLine last k n).pairing.Mid p [] s s := ⟨⟨rfl, hb⟩, hmid, trivial⟩
  have hatt := Pairing.line_attempted hstart hf hf
  generalize hr : (Mended.attempt (Parser.line p) (some p)).run s = r at hatt ⊢
  cases hatt with
  | last hrel _ => exact hrel.2.mono hs.le
  | stopped h => exact h.2.2.mono hs.le
  | left h => exact h.1.mono hs.le
  | right h => exact h.1.mono hs.le
  | next hrel hst =>
    obtain hst | hst := hst
    · exact ⟨n, hrel.2.mono hkn, hst.2⟩
    · exact ⟨k, hrel.2, Mirror.numbered_of_mid hkn hst⟩
  | crossed _ hrun _ hL _ ha hstray =>
    -- Nothing is known of this error but its line, so it is mended here.
    rw [← hr]
    exact mend hkn hstray.1 (Mirror.line_broken hmid hf hrun) ha.2 hL hrun

theorem attempt (h : s.InOrder last) (p : Place) :
    KeepsOrder last ((Mended.attempt (Parser.line p) (some p)).run s) := by
  obtain ⟨k, hb, hs⟩ := h
  obtain ⟨M, hM, hf⟩ := exists_filled s.steps
  obtain ⟨n, hkn, hn⟩ := hs.blanks hM
  obtain ⟨s', rfl, hb', -, hskip⟩ := s.skipNewlines_blanks hM
  rw [attempt_congr (run_line_congr hskip p)]
  exact attempt_filled ⟨n, hb' ▸ hb.mono hkn, hn⟩ hf p

/-! Whole texts -/

theorem linesFrom (h : s.InOrder last) (p : Place) :
    ((Parser.linesFrom p).run s).2.builder.InOrder last := by
  induction p, s using lines_induction with
  | line p s ih =>
  have hline := h.attempt p
  rw [run_linesFrom]
  cases hrun : (Mended.attempt (Parser.line p) (some p)).run s with
  | mk r s' =>
  rw [hrun] at hline
  obtain f | _ | q := r
  · exact hline
  · exact hline
  · exact ih q s' hrun hline

theorem start (source : String) (o : BuildOptions) :
    (Session.start source o).InOrder (1 + source.toList.count '\n') :=
  ⟨1, .new o, (Lexer.ofString 0 source).steps_numbered⟩

end Session.InOrder

/-- The problems that a build reports, whether it is given up or not. -/
def diagnosticsOf : Except CompileError Compiled → List Diagnostic
  | .ok c => c.diagnostics
  | .error e => e.diagnostics

/-- Problems are reported in the order of their lines, and on lines of the text. -/
theorem compile_inOrder (source : String) (o : BuildOptions) :
    (diagnosticsOf (compile source o)).Pairwise (fun d e => d.line ≤ e.line) ∧
      ∀ d ∈ diagnosticsOf (compile source o),
        1 ≤ d.line ∧ d.line ≤ 1 + source.toList.count '\n' := by
  have hinOrder := (Session.InOrder.start source o).linesFrom .top
  have hdiagnostics : diagnosticsOf (compile source o) =
      ((Parser.linesFrom .top).run (Session.start source o)).2.builder.diagnostics := by
    rw [compile_eq]
    generalize (Parser.linesFrom .top).run (Session.start source o) = r
    obtain ⟨f | _, s⟩ := r
    · exact Builder.finish_diagnostics s.builder
    · exact Builder.finish_diagnostics s.builder
  rw [hdiagnostics]
  refine ⟨hinOrder.ordered, fun d hd => ?_⟩
  obtain ⟨hpositive, hline⟩ := hinOrder.within d hd
  exact ⟨hpositive, Nat.le_trans hline hinOrder.line⟩

end PirFrontend
