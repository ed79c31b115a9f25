import Mathlib.Data.List.TakeWhile
import PirFrontend.Proofs.Joins
import PirFrontend.Proofs.Mirrors

/-!
Line endings. A carriage return in front of a newline is passed over as a blank, or it becomes part
of a comment or of a string that is not closed, of which neither the contents nor the length is
told. So a text with such line endings is read as the text without them is.
-/
namespace PirFrontend

/-- A carriage return in front of every newline. -/
def withReturns (cs : List Char) : List Char :=
  cs.flatMap fun c => if c = '\n' then ['\r', '\n'] else [c]

theorem withReturns_line {v : List Char} (h : '\n' ∉ v) : withReturns v = v := by
  induction v with
  | nil => rfl
  | cons c v ih =>
    have hc : c ≠ '\n' := fun hc => h (hc ▸ List.mem_cons_self)
    have hv := ih fun hmem => h (List.mem_cons_of_mem _ hmem)
    rw [withReturns] at hv ⊢
    rw [List.flatMap_cons, hv, if_neg hc, List.singleton_append]

theorem withReturns_newline {v : List Char} (h : '\n' ∉ v) (b : List Char) :
    withReturns (v ++ '\n' :: b) = v ++ ['\r'] ++ '\n' :: withReturns b := by
  have hv := withReturns_line h
  rw [withReturns] at hv ⊢
  rw [List.flatMap_append, hv, List.flatMap_cons, if_pos rfl]
  simp [withReturns]

/-! One line -/

/-- The text of the same line, perhaps with a carriage return behind it. -/
def Returned (u v : List Char) : Prop := '\n' ∉ u ∧ (v = u ∨ v = u ++ ['\r'])

theorem takeWhile_inline {v : List Char} (h : '\n' ∉ v) : v.takeWhile (· != '\n') = v := by
  rw [List.takeWhile_eq_self_iff]
  intro c hc
  simpa using fun heq : c = '\n' => h (heq ▸ hc)

theorem dropWhile_inline {v : List Char} (h : '\n' ∉ v) : v.dropWhile (· != '\n') = [] := by
  rw [List.dropWhile_eq_nil_iff]
  intro c hc
  simpa using fun heq : c = '\n' => h (heq ▸ hc)

/-- The carriage return is a blank or part of a comment, or it stands behind what is left. -/
theorem splitTrivia_return {v : List Char} (h : '\n' ∉ v) :
    (splitTrivia v).2 = [] ∧ (splitTrivia (v ++ ['\r'])).2 = [] ∨
    ∃ c cs, (splitTrivia v).2 = c :: cs ∧
      splitTrivia (v ++ ['\r']) = ((splitTrivia v).1, c :: (cs ++ ['\r'])) := by
  have hsplit := List.takeWhile_append_dropWhile (p := isBlank) (l := v)
  unfold splitTrivia
  simp only [List.takeWhile_append, List.dropWhile_append]
  cases hd : v.dropWhile isBlank with
  | nil =>
    left
    simp [isBlank]
  | cons c rest =>
    have hlength : (v.takeWhile isBlank).length ≠ v.length := by
      intro heq
      have hlengths := congrArg List.length hsplit
      rw [hd, List.length_append, heq] at hlengths
      simp at hlengths
    have hrest : '\n' ∉ rest := by
      intro hmem
      rw [← hsplit, hd] at h
      exact h (List.mem_append_right _ (List.mem_cons_of_mem _ hmem))
    simp only [hlength, if_false, List.isEmpty_cons, Bool.false_eq_true, List.cons_append]
    by_cases hc : c = '#'
    · left
      subst hc
      have hreturn : '\n' ∉ rest ++ ['\r'] := by simpa using hrest
      exact ⟨dropWhile_inline hrest, dropWhile_inline hreturn⟩
    · right
      exact ⟨c, rest, by simp [hc], by simp [hc]⟩

/-- The carriage return stands behind the piece, or behind the text of a string that is not
closed. -/
theorem scan_return {cs : List Char} (h : '\n' ∉ cs) (signAllowed : Bool) (c : Char) :
    Piece.scan signAllowed c (cs ++ ['\r']) = (Piece.scan signAllowed c cs).followed ['\r'] ∨
    ∃ code message text, Piece.scan signAllowed c cs = .fault code message text [] ∧
      Piece.scan signAllowed c (cs ++ ['\r']) = .fault code message (text ++ ['\r']) [] := by
  by_cases hc : c = '"' ∨ c = '\''
  · have hquote : isLineEnd c = false := by
      obtain rfl | rfl := hc <;> decide
    have hreturn : '\n' ∉ cs ++ ['\r'] := by simpa using h
    rw [Piece.scan_quoted signAllowed hc, Piece.scan_quoted signAllowed hc, Quoted.scan,
      Quoted.scan, Quoted.body?_return hquote, takeWhile_inline h, takeWhile_inline hreturn,
      dropWhile_inline h, dropWhile_inline hreturn]
    cases Quoted.body? c cs with
    | some d => exact .inl rfl
    | none => exact .inr ⟨_, _, _, rfl, rfl⟩
  · exact .inl (Piece.scan_lineEnd (by decide) signAllowed hc cs [])

namespace Lexer

variable {A : Likeness} {l m : Lexer}

/-- A step on a line is alike with a carriage return behind the line. -/
theorem next_returned (hrest : Returned l.rest m.rest) (hsign : l.sign = m.sign)
    (hline : A.line l.line m.line) : Stepped A Returned l.next m.next := by
  obtain ⟨hinline, hrest⟩ := hrest
  have hnext : '\n' ∉ l.next.2.rest := by
    obtain ⟨u, sign, hpassed, -⟩ := l.next_passes
    exact fun hmem => hinline (hpassed ▸ List.mem_append_right u hmem)
  refine Stepped.imp (R := fun u v => v = u ∨ v = u ++ ['\r']) ?_ fun h => ⟨hnext, h⟩
  -- Once the return was read, as a blank or in a string without an end, the texts are the same.
  obtain hsame | hreturn := hrest
  · exact (next_stepped hsame.symm hsign hline).imp fun h => .inl h.symm
  have htrivia := splitTrivia_append l.rest
  rw [next_eq, next_eq, hreturn, hsign]
  obtain ⟨hl, hm⟩ | ⟨c, cs, hl, hm⟩ := splitTrivia_return hinline
  · rw [hl, hm]
    exact .done _ _
  · rw [hl] at htrivia ⊢
    rw [hm]
    have hcs : '\n' ∉ cs := fun hmem => hinline
      (htrivia ▸ List.mem_append_right _ (List.mem_cons_of_mem _ hmem))
    have hhere := A.later ((splitTrivia l.rest).1.count '\n') hline
    obtain hscan | ⟨code, message, text, hscan, hscan'⟩ :=
      scan_return hcs (m.sign.permits !(splitTrivia l.rest).1.isEmpty) c
    · dsimp only
      rw [hscan]
      exact take_stepped hhere _ (.inr rfl)
    · dsimp only
      rw [hscan, hscan']
      have hcount : (text ++ ['\r'] ++ []).count '\n' = (text ++ []).count '\n' := by simp
      have hbehind := A.later ((text ++ []).count '\n') hhere
      refine .fault ⟨rfl, .some hhere⟩ (.inl rfl) rfl ?_
      show A.line (l.line + _ + (text ++ []).count '\n')
        (m.line + _ + (text ++ ['\r'] ++ []).count '\n')
      rw [hcount]
      exact hbehind

/-- A text is read alike with carriage returns in front of its newlines. -/
theorem steps_withReturns (hrest : m.rest = withReturns l.rest) (hsign : l.sign = m.sign)
    (hline : A.line l.line m.line) : List.Forall₂ (StepLike A) l.steps m.steps := by
  induction l using line_induction generalizing m with
  | last l hl =>
    rw [withReturns_line hl] at hrest
    exact steps_alike hrest.symm hsign hline
  | line l b hl ih =>
    have hwhole : m.rest = l.rest ++ ['\r'] ++ '\n' :: withReturns b :=
      hrest.trans (withReturns_newline hl b)
    -- The line up to the carriage return, and what follows it there.
    obtain ⟨m', hrest', hsign', hline', rfl⟩ : ∃ m' : Lexer, m'.rest = l.rest ++ ['\r'] ∧
        l.sign = m'.sign ∧ A.line l.line m'.line ∧ m = m'.followed (withReturns b) := by
      refine ⟨{ m with rest := l.rest ++ ['\r'] }, rfl, hsign, hline, ?_⟩
      rw [followed, ← hwhole]
    have hm : '\n' ∉ m'.rest := by simpa [hrest'] using hl
    have hsteps := steps_of_stepped (fun _ _ => next_returned) ⟨hl, .inr hrest'⟩ hsign' hline'
    have hnewline : A.Tokens l.newlineToken m'.newlineToken := by
      refine ⟨⟨rfl, rfl⟩, ?_⟩
      rw [newlineToken_line hl, newlineToken_line hm]
      exact hline'
    have hbehind : A.line (l.past b).line (m'.past (withReturns b)).line := by
      rw [past_line hl, past_line hm]
      exact A.later 1 hline'
    rw [steps_followed, steps_followed]
    exact List.rel_append hsteps (.cons (.token hnewline) (ih rfl rfl hbehind))

end Lexer

/-! Whole texts -/

/-- Two runs on texts whose steps are the same but for their places within the lines. -/
def Mirror.everywhere : Mirror where
  inv _ := True
  place _ := True
  charged _ := True
  start := List.Forall₂ (StepLike .exact)
  askew _ _ := False

theorem Mirror.everywhere_mid {L M : List Step} (h : List.Forall₂ (StepLike .exact) L M) :
    everywhere.pairing.mid L M :=
  (start_cases (textual_same .exact) (fun _ => trivial) (fun _ => trivial) h).resolve_right id

theorem Mirror.everywhere_faithful : everywhere.Faithful where
  charges _ _ := trivial
  setLine _ _ := trivial
  charged _ := trivial
  glimpse h :=
    .inl (Pairing.glimpse_mid (everywhere_mid h) h (·.1.like) (textual_same .exact).fault)

theorem Mirror.everywhere_continuing : everywhere.pairing.Continuing where
  toLawful := everywhere_faithful.lawful
  start_cases h := .inl (everywhere_mid h)

/-- Reading to the end gives the same answer and leaves the same builder. -/
def Parser.EndAlike (p : Parser.Place) (s t : Session) : Prop :=
  ∃ r s' t', (linesFrom p).run s = (r, s') ∧ (linesFrom p).run t = (r, t') ∧
    s'.builder = t'.builder

/-- Runs of one builder on such texts end alike. -/
theorem Mirror.everywhere_lines {p : Parser.Place} {s t : Session} (hb : s.builder = t.builder)
    (hsteps : everywhere.start s.steps t.steps ∨ everywhere.pairing.mid s.steps t.steps) :
    Parser.EndAlike p s t := by
  have := Mirror.everywhere_continuing
  have hout : everywhere.pairing.Outcome p s t := Pairing.lines_outcome ⟨hb, trivial⟩ hsteps
  cases hout with
  | ended hl hr hrel _ => exact ⟨_, _, _, hl, hr, hrel.1⟩
  | stopped hl hr hst =>
    rw [← hst.1] at hr
    exact ⟨_, _, _, hl, hr, hst.2.1⟩
  | left _ ha => exact ha.2.elim fun _ ⟨_, hf⟩ => hf.elim
  | right _ ha => exact ha.2.elim fun _ ⟨_, hf⟩ => hf.elim
  | askew _ _ _ ha => exact ha.elim
  | crossed _ _ _ _ _ _ ha _ => exact ha.elim

/-- A line that both runs read alike has the same answer and leaves the same builder, and what
follows it is read alike, too. -/
theorem Mirror.everywhere_line {p : Parser.Place} {s t : Session}
    (h : everywhere.pairing.Attempted p s t ((Mended.attempt (Parser.line p) (some p)).run s)
      ((Mended.attempt (Parser.line p) (some p)).run t)) :
    ((Mended.attempt (Parser.line p) (some p)).run s).1 =
        ((Mended.attempt (Parser.line p) (some p)).run t).1 ∧
      ((Mended.attempt (Parser.line p) (some p)).run s).2.builder =
        ((Mended.attempt (Parser.line p) (some p)).run t).2.builder ∧
      Parser.EndAlike p s t := by
  have hl := run_linesFrom p s
  have hr := run_linesFrom p t
  revert h hl hr
  generalize (Mended.attempt (Parser.line p) (some p)).run s = r
  generalize (Mended.attempt (Parser.line p) (some p)).run t = r'
  intro h hl hr
  cases h with
  | last hrel _ => exact ⟨rfl, hrel.1, _, _, _, hl, hr, hrel.1⟩
  | next hrel hsteps =>
    obtain ⟨a, s', t', hs, ht, hb⟩ := everywhere_lines hrel.1 hsteps
    exact ⟨rfl, hrel.1, a, s', t', hl.trans hs, hr.trans ht, hb⟩
  | stopped hst =>
    obtain ⟨rfl, hb, -⟩ := hst
    exact ⟨rfl, hb, _, _, _, hl, hr, hb⟩
  | left ha => exact ha.2.elim fun _ ⟨_, hf⟩ => hf.elim
  | right ha => exact ha.2.elim fun _ ⟨_, hf⟩ => hf.elim
  | crossed _ _ _ _ _ ha _ => exact ha.elim

theorem compile_of_endAlike {source source' : String} {o : BuildOptions}
    (h : Parser.EndAlike .top (Session.start source o) (Session.start source' o)) :
    compile source o = compile source' o := by
  obtain ⟨r, s, t, hs, ht, hb⟩ := h
  rw [compile_eq, compile_eq, hs, ht]
  cases r <;> dsimp only <;> rw [hb]

/-- Texts whose steps are the same but for their places within the lines compile to the same. -/
theorem compile_congr {source source' : String}
    (h : List.Forall₂ (StepLike .exact) (Lexer.ofString 0 source).steps
      (Lexer.ofString 0 source').steps) (o : BuildOptions) :
    compile source o = compile source' o :=
  compile_of_endAlike (Mirror.everywhere_lines rfl (.inl h))

/-- A text with a carriage return in front of every newline compiles to what the text without them
compiles to, or fails as that does. -/
theorem compile_withReturns (source : String) (o : BuildOptions) :
    compile (.ofList (withReturns source.toList)) o = compile source o := by
  have hrest : (Lexer.ofString 0 (.ofList (withReturns source.toList))).rest =
      withReturns (Lexer.ofString 0 source).rest := String.toList_ofList
  exact (compile_congr (Lexer.steps_withReturns hrest rfl rfl) o).symm

example : withReturns "a:\n\n".toList = "a:\r\n\r\n".toList := by decide

end PirFrontend
