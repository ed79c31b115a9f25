import PirFrontend.Proofs.Rescanning

/-!
Blanks between tokens carry nothing. A text that scans is as good as its tokens with one blank
between each two of them.
-/
namespace PirFrontend

/-- What is read off a token: what it is, with its value if it has one, and its text. -/
def Token.reading (t : Token) : TokenKind × String := (t.kind, t.lexeme)

/-- The token as it is written, a label with its colon. -/
def Token.written (t : Token) : String := t.lexeme ++ String.ofList t.kind.colon

/-- The tokens with one blank between each two of them. -/
def respaced (ts : List Token) : String := " ".intercalate (ts.map Token.written)

theorem toList_respaced (t : Token) (ts : List Token) : (respaced (t :: ts)).toList =
    t.written.toList ++ ts.flatMap fun u => ' ' :: u.written.toList := by
  induction ts generalizing t with
  | nil => simp [respaced]
  | cons u ts ih =>
    have htail := ih u
    simp only [respaced, List.map_cons] at htail ⊢
    rw [String.intercalate_cons_cons, String.toList_append, String.toList_append, htail]
    simp

namespace Lexer

variable {l l' m : Lexer} {t : Token} {ts : List Token}

/-- A token is read from a piece of its own. -/
theorem scan_of_next (h : l.next = (.token t, l')) : ∃ blanks c v,
    (Piece.scan (l.sign.permits blanks) c v).reading = .ok t.kind ∧
      t.lexeme = String.ofList (Piece.scan (l.sign.permits blanks) c v).text ∧
      l'.sign = SignRule.after t.kind := by
  rw [next_eq] at h
  split at h
  · cases h
  next c v _ =>
    refine ⟨!(splitTrivia l.rest).1.isEmpty, c, v, ?_⟩
    generalize Piece.scan _ c v = p at h
    unfold take at h
    dsimp only at h
    split at h
    next kind hread =>
      cases h
      exact ⟨hread, rfl, rfl⟩
    next => cases h

/-- Behind a blank a minus sign begins a number wherever it did without one. -/
theorem permits_of_blank {r : SignRule} {blanks : Bool} (h : r.permits blanks = true) :
    r.permits true = true := by
  cases r with
  | allowed => rfl
  | spaced => rfl
  | refused => cases h

/-- A token is read from its own text again, if blanks are in front of it or none are needed. -/
theorem next_written (h : l.next = (.token t, l')) (hsign : m.sign = l.sign) (blanks : List Char)
    {tail : List Char} (hblanks : ∀ b ∈ blanks, isBlank b = true)
    (hspaced : m.sign = .allowed ∨ blanks ≠ [])
    (hrest : m.rest = blanks ++ (t.written.toList ++ tail)) (htail : Separated tail) :
    ∃ u m', m.next = (.token u, m') ∧ u.reading = t.reading ∧ m'.rest = tail ∧
      m'.sign = l'.sign := by
  obtain ⟨given, c, v, hread, hlexeme, hafter⟩ := scan_of_next h
  obtain ⟨w, htext, hagain⟩ := Piece.scan_again hread
  have hallowed : l.sign.permits given = true → (m.sign.permits (!blanks.isEmpty)) = true := by
    intro hgiven
    obtain hfree | hne := hspaced
    · rw [hfree]
      rfl
    · rw [hsign, List.isEmpty_eq_false_iff.2 hne]
      exact permits_of_blank hgiven
  have hwritten : t.written.toList = c :: (w ++ t.kind.colon) := by
    rw [Token.written, hlexeme, htext]
    simp
  rw [hwritten, List.cons_append] at hrest
  obtain ⟨u, m', hnext, hkind, hlex, hrest', hsign'⟩ :=
    next_of_scan hrest hblanks (hagain _ tail (htail.ends hallowed _)) rfl
  refine ⟨u, m', hnext, ?_, hrest', hsign'.trans hafter.symm⟩
  rw [Token.reading, Token.reading, hkind, hlex, hlexeme, htext]

theorem separated_flatMap (ts : List Token) :
    Separated (ts.flatMap fun u => ' ' :: u.written.toList) := by
  cases ts with
  | nil => exact .nil
  | cons t ts => exact .cons rfl _

/-- Tokens with a blank in front of each are read again. -/
theorem steps_written (hsteps : l.steps = ts.map .ok) (hsign : m.sign = l.sign)
    (hrest : m.rest = ts.flatMap fun t => ' ' :: t.written.toList) :
    ∃ us : List Token, m.steps = us.map .ok ∧ us.map Token.reading = ts.map Token.reading := by
  -- The induction is on the tokens: what the lexers keep is how they take the next sign.
  induction ts generalizing l m with
  | nil =>
    have hdone : m.next = (.done, m.pass [] []) := by
      rw [next_eq, hrest]
      rfl
    exact ⟨[], steps_of_done hdone, rfl⟩
  | cons t ts ih =>
    obtain ⟨l', hnext⟩ := next_of_steps hsteps
    rw [steps_of_token hnext] at hsteps
    obtain ⟨u, m', hnext', hreading, hrest', hsign'⟩ := next_written hnext hsign [' ']
      (by simp [isBlank]) (.inr nofun) hrest (separated_flatMap ts)
    obtain ⟨us, hus, hreadings⟩ := ih (List.cons.inj hsteps).2 hsign' hrest'
    exact ⟨u :: us, by rw [steps_of_token hnext', hus]; rfl,
      by rw [List.map_cons, List.map_cons, hreading, hreadings]⟩

/-- The tokens of a text, with one blank between each two, are read again with their values. -/
theorem tokens_respaced (source : Nat) (text : String) (ts : List Token)
    (h : (ofString source text).tokens = .ok ts) :
    ∃ us, (ofString source (respaced ts)).tokens = .ok us ∧
      us.map Token.reading = ts.map Token.reading := by
  have hsteps := steps_of_tokens h
  cases ts with
  | nil => exact ⟨[], tokens_of_steps (steps_of_done rfl), rfl⟩
  | cons t ts =>
    obtain ⟨l', hnext⟩ := next_of_steps hsteps
    rw [steps_of_token hnext] at hsteps
    obtain ⟨u, m, hnext', hreading, hrest, hsign⟩ :=
      next_written (m := ofString source (respaced (t :: ts))) hnext rfl [] nofun
        (.inl rfl) (toList_respaced t ts) (separated_flatMap ts)
    obtain ⟨us, hus, hreadings⟩ := steps_written (List.cons.inj hsteps).2 hsign hrest
    refine ⟨u :: us, tokens_of_steps ?_, by rw [List.map_cons, List.map_cons, hreading, hreadings]⟩
    rw [steps_of_token hnext', hus]
    rfl

/-- Three minus signs, two of which are parts of numbers. -/
theorem tokens_respaced_minus : ∃ ts us,
    (ofString 0 "x:\tsay  -1-2,-3").tokens = .ok ts ∧
    respaced ts = "x: say -1 - 2 , -3" ∧
    (ofString 0 (respaced ts)).tokens = .ok us ∧
    us.map Token.reading = ts.map Token.reading := by
  have hrespaced : (ofString 0 "x:\tsay  -1-2,-3").tokens.toOption.map respaced =
      some "x: say -1 - 2 , -3" := by decide +kernel
  cases hts : (ofString 0 "x:\tsay  -1-2,-3").tokens with
  | error f =>
    rw [hts] at hrespaced
    cases hrespaced
  | ok ts =>
    rw [hts] at hrespaced
    obtain ⟨us, hus, hreadings⟩ := tokens_respaced 0 "x:\tsay  -1-2,-3" ts hts
    exact ⟨ts, us, rfl, Option.some.inj hrespaced, hus, hreadings⟩

end Lexer
end PirFrontend
