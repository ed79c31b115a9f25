import PirFrontend.Proofs.Joins

/-!
The label in front of a line. With its colon it is a text of its own, which is read as that label.
-/
namespace PirFrontend

/-- The label in front of a line with its colon, or nothing if the line begins otherwise. -/
def leadingLabel (line : String) : String :=
  match (Lexer.ofString 0 line).next with
  | (.token ⟨.label, lexeme, _⟩, _) => lexeme ++ ":"
  | _ => ""

theorem isWordChar_of_isWordStart {c : Char} (h : isWordStart c = true) : isWordChar c = true := by
  simp only [isWordStart, isWordChar, Char.isAlphanum, Bool.or_eq_true] at h ⊢
  exact h.imp_left .inl

/-- A word with a colon is a label if nothing is behind it. -/
theorem Piece.word_colon {w : List Char} (h : ∀ c ∈ w, isWordChar c = true) :
    word (w ++ [':']) = ⟨.ok .label, w, [':'], []⟩ := by
  have hcolon : isWordChar ':' = false := by decide
  unfold word
  rw [List.takeWhile_append_of_pos h, List.dropWhile_append_of_pos h]
  simp [hcolon, closesLabel]

namespace Lexer

/-- A name with a colon is read as one label. -/
theorem steps_name {l : Lexer} {c : Char} {w : List Char} (hrest : l.rest = c :: w ++ [':'])
    (hc : isWordStart c = true) (hw : ∀ d ∈ w, isWordChar d = true) :
    ∃ t, l.steps = [.ok t] ∧ t.kind = .label ∧ t.lexeme = String.ofList (c :: w) := by
  -- A word does not begin with a blank or a comment, so nothing is skipped in front of it.
  have hne {d : Char} (hd : isWordStart d = false) : c ≠ d := by
    intro rfl
    rw [hc] at hd
    cases hd
  have hblank : isBlank c = false := by
    simp [isBlank, hne (d := ' ') (by decide), hne (d := '\t') (by decide),
      hne (d := '\r') (by decide), hne (d := '\x0c') (by decide)]
  have htrivia : splitTrivia l.rest = ([], c :: (w ++ [':'])) := by
    rw [hrest]
    simp [splitTrivia, hblank, hne (d := '#') (by decide)]
  have hword : Piece.word (c :: (w ++ [':'])) = ⟨.ok .label, c :: w, [':'], []⟩ := by
    apply Piece.word_colon (w := c :: w)
    intro d hd
    obtain rfl | hd := List.mem_cons.1 hd
    · exact isWordChar_of_isWordStart hc
    · exact hw d hd
  -- Behind the colon nothing is left.
  let here := l.pass [] (c :: (w ++ [':']))
  let behind : Lexer := { here.pass (c :: w ++ [':']) [] with sign := SignRule.after .label }
  let span := Span.between here.source here.offset (here.offset + byteSize (c :: w)) here.line
  have hnext : l.next = (.token ⟨.label, String.ofList (c :: w), span⟩, behind) := by
    rw [next_eq, htrivia]
    dsimp only
    rw [Piece.scan_of_isWordStart hc, hword]
    rfl
  have hend : behind.steps = [] := steps_of_done rfl
  exact ⟨_, (steps_of_token hnext).trans (congrArg (_ :: ·) hend), rfl, rfl⟩

/-- A label is read from its name. -/
theorem next_label {l l' : Lexer} {t : Token} (h : l.next = (.token t, l'))
    (ht : t.kind = .label) : ∃ c w, isWordStart c = true ∧ (∀ d ∈ w, isWordChar d = true) ∧
      t.lexeme = String.ofList (c :: w) := by
  rw [next_eq] at h
  split at h
  · cases h
  next c cs _ =>
    generalize hp : Piece.scan _ c cs = p at h
    unfold take at h
    dsimp only at h
    split at h
    next kind hread =>
      cases h
      obtain rfl : kind = .label := ht
      rw [← hp] at hread
      obtain ⟨hc, htext⟩ := Piece.scan_label hread
      refine ⟨c, cs.takeWhile isWordChar, hc, fun d hd => ?_, ?_⟩
      · exact List.all_eq_true.1 List.all_takeWhile d hd
      · rw [← hp, htext, List.takeWhile_cons_of_pos (isWordChar_of_isWordStart hc)]
    next => cases h

theorem next_of_steps {l : Lexer} {t : Token} {L : List Step} (h : l.steps = .ok t :: L) :
    ∃ l', l.next = (.token t, l') := by
  rw [steps_eq] at h
  cases hnext : l.next with
  | mk step l' =>
  rw [hnext] at h
  cases step with
  | token u =>
    cases h
    exact ⟨l', rfl⟩
  | fault f => cases h
  | done => cases h

variable {front line : String} {t : Token} {L : List Step}

/-- The first token of a line is the same wherever the line stands. -/
theorem next_ofString (h : (behind front line).steps = .ok t :: L) :
    ∃ u l', t.Like u ∧ (ofString 0 line).next = (.token u, l') := by
  obtain ⟨l, hnext⟩ := next_of_steps h
  have hstep := next_stepped (A := .built) (l := behind front line) (m := ofString 0 line) rfl rfl
    trivial
  rw [hnext] at hstep
  generalize (ofString 0 line).next = r at hstep
  cases hstep with
  | token htu _ _ _ => exact ⟨_, _, htu.like, rfl⟩

/-- The label in front of a line is a line of its own. -/
theorem steps_leadingLabel (h : (behind front line).steps = .ok t :: L) (ht : t.kind = .label) :
    ∃ u, t.Like u ∧ (behind front (leadingLabel line)).steps = [.ok u] := by
  obtain ⟨⟨kind, lexeme, span⟩, l, htu, hnext⟩ := next_ofString h
  obtain rfl : kind = .label := htu.kind.symm.trans ht
  obtain ⟨c, w, hc, hw, rfl⟩ := next_label hnext rfl
  have htext : leadingLabel line = String.ofList (c :: w) ++ ":" := by
    unfold leadingLabel
    rw [hnext]
  obtain ⟨u, hu, huk, hul⟩ := steps_name (l := behind front (leadingLabel line)) (by
    rw [htext]
    simp [behind, pass]) hc hw
  exact ⟨u, ⟨ht.trans huk.symm, htu.lexeme.trans hul.symm⟩, hu⟩

theorem leadingLabel_eq_empty (h : (behind front line).steps = .ok t :: L)
    (ht : t.kind ≠ .label) : leadingLabel line = "" := by
  obtain ⟨⟨kind, lexeme, span⟩, l, htu, hnext⟩ := next_ofString h
  have hkind : kind ≠ .label := fun hk => ht (htu.kind.trans hk)
  unfold leadingLabel
  rw [hnext]
  cases kind <;> first | rfl | exact absurd rfl hkind

end Lexer
end PirFrontend
