import PirFrontend.Proofs.Literals

/-!
A word in the place of another. Each token of one spelling is spelled like a keyword that declares
a type, and nothing else of the text is touched. Then every token is what it was, but for those
that were respelled, if none of them has a number with its sign directly behind it.
-/
namespace PirFrontend

/-- The keyword declares a type. -/
def Keyword.IsType (k : Keyword) : Prop := (ValueType.ofKeyword? k).isSome = true

instance (k : Keyword) : Decidable k.IsType := inferInstanceAs (Decidable (_ = true))

namespace Keyword

variable {k : Keyword}

/-- The letters that begin the name of a type. They neither mark an exponent nor a base. -/
def IsInitial (c : Char) : Prop := c = 'i' ∨ c = 'n' ∨ c = 'p' ∨ c = 's'

theorem IsType.spelling_cases (hk : k.IsType) : ∃ c w, k.spelling.toList = c :: w ∧
    IsInitial c ∧ ∀ d ∈ c :: w, isWordChar d = true := by
  cases k with
  | ifWord | unlessWord | null | goto => exact absurd hk (by decide)
  | int => exact ⟨'i', _, rfl, .inl rfl, List.all_eq_true.1 rfl⟩
  | num => exact ⟨'n', _, rfl, .inr (.inl rfl), List.all_eq_true.1 rfl⟩
  | pmc => exact ⟨'p', _, rfl, .inr (.inr (.inl rfl)), List.all_eq_true.1 rfl⟩
  | string => exact ⟨'s', _, rfl, .inr (.inr (.inr rfl)), List.all_eq_true.1 rfl⟩

theorem ofName_spelling (k : Keyword) : TokenKind.ofName k.spelling.toList = .keyword k := by
  cases k <;> rfl

/-- No directive ends with the name of a type. -/
theorem IsType.ofSpelling?_directive (hk : k.IsType) (front : List Char) :
    Directive.ofSpelling? (String.ofList (front ++ k.spelling.toList)) = none := by
  rw [Directive.ofSpelling?, List.find?_eq_none]
  intro d hd heq
  have hsuffix : k.spelling.toList <:+ d.spelling.toList := by
    rw [eq_of_beq heq, String.toList_ofList]
    exact List.suffix_append _ _
  revert hsuffix
  cases k with
  | ifWord | unlessWord | null | goto => exact absurd hk (by decide)
  | _ => cases d <;> decide

end Keyword

/-! Texts that part at a word -/

/-- Two texts that agree up to a word, which the second one spells like the keyword. -/
inductive WordFork (k : Keyword) : List Char → List Char → Prop
  | same (cs : List Char) : WordFork k cs cs
  | word (front : List Char) {c : Char} {rest behind : List Char} : isWordStart c = true →
      Stops isWordChar behind →
      WordFork k (front ++ c :: rest) (front ++ (k.spelling.toList ++ behind))

theorem Operator.wordStart_notMem_glyphs {c : Char} (hc : isWordStart c = true) (op : Operator) :
    c ∉ op.glyphs := by
  have hglyphs : op.glyphs.all (!isWordStart ·) = true := by cases op <;> decide
  intro hmem
  have := List.all_eq_true.1 hglyphs c hmem
  rw [hc] at this
  cases this

namespace Numeral

theorem eq_of_fraction {cs : List Char} (h : (fraction cs).1 = []) : fraction cs = ([], cs) := by
  have hcs := fraction_split cs
  rw [h, List.nil_append] at hcs
  exact Prod.ext h hcs

theorem eq_of_exponent {cs : List Char} (h : (exponent cs).1 = []) : exponent cs = ([], cs) := by
  have hcs := exponent_split cs
  rw [h, List.nil_append] at hcs
  exact Prod.ext h hcs

theorem reading_ne_operator (cs : List Char) (op : Operator) :
    (scan cs).reading ≠ .ok (.operator op) := by
  intro h
  obtain ⟨_, h⟩ | ⟨_, h⟩ := scan_reading h <;> cases h

end Numeral

namespace WordFork

variable {k : Keyword} {rest tail front behind : List Char} {c d : Char}

theorem append (front : List Char) (h : WordFork k rest tail) :
    WordFork k (front ++ rest) (front ++ tail) := by
  cases h with
  | same => exact .same _
  | word between hc hbehind =>
    rw [← List.append_assoc, ← List.append_assoc]
    exact .word (front ++ between) hc hbehind

/-- The heads of the two texts are alike. -/
theorem stops {p : Char → Bool} (hp : p d = false ∨ p c = true)
    (h : Stops p (front ++ c :: rest)) : Stops p (front ++ d :: behind) := by
  refine h.append fun hc => ?_
  rintro _ ⟨⟩
  exact hp.resolve_right (by simp [hc c rfl])

theorem endsLabel (hd : isWordStart d = true) (h : endsLabel (front ++ c :: rest) = false) :
    endsLabel (front ++ d :: behind) = false := by
  match front with
  | [] =>
    have hne : d ≠ ':' := by
      rintro rfl
      cases hd
    simp [PirFrontend.endsLabel, hne]
  | [a] =>
    by_cases ha : a = ':'
    · subst ha
      simp [PirFrontend.endsLabel, PirFrontend.closesLabel, hd]
    · simp [PirFrontend.endsLabel, ha]
  | a :: b :: front =>
    by_cases ha : a = ':'
    · subst ha
      exact h
    · simp [PirFrontend.endsLabel, ha]

theorem closesLabel (hc : isWordStart c = true)
    (h : closesLabel (front ++ c :: rest) = true) : closesLabel (front ++ d :: behind) = true := by
  cases front with
  | nil => simp [PirFrontend.closesLabel, hc] at h
  | cons a front => exact h

theorem radix? (hd : Keyword.IsInitial d)
    (h : Numeral.radix? (front ++ c :: rest) = none) :
    Numeral.radix? (front ++ d :: behind) = none := by
  match front with
  | [] => obtain rfl | rfl | rfl | rfl := hd <;> rfl
  | [a] =>
    by_cases ha : a = '0'
    · subst ha
      obtain rfl | rfl | rfl | rfl := hd <;> rfl
    · simp [Numeral.radix?, ha]
  | a :: b :: front =>
    by_cases ha : a = '0'
    · subst ha
      simpa [Numeral.radix?] using h
    · simp [Numeral.radix?, ha]

theorem fraction (hd : Keyword.IsInitial d)
    (h : (Numeral.fraction (front ++ c :: rest)).1 = []) :
    Numeral.fraction (front ++ d :: behind) = ([], front ++ d :: behind) := by
  have hdigit : d.isDigit = false := by obtain rfl | rfl | rfl | rfl := hd <;> rfl
  apply Numeral.eq_of_fraction
  match front with
  | [] => obtain rfl | rfl | rfl | rfl := hd <;> rfl
  | [a] =>
    by_cases ha : a = '.'
    · subst ha
      simp [Numeral.fraction, hdigit]
    · simp [Numeral.fraction, ha]
  | a :: b :: front =>
    by_cases ha : a = '.'
    · subst ha
      cases hb : b.isDigit <;> simp [Numeral.fraction, hb] at h ⊢
    · simp [Numeral.fraction, ha]

theorem exponent (hd : Keyword.IsInitial d)
    (h : (Numeral.exponent (front ++ c :: rest)).1 = []) :
    Numeral.exponent (front ++ d :: behind) = ([], front ++ d :: behind) := by
  have hdigit : d.isDigit = false := by obtain rfl | rfl | rfl | rfl := hd <;> rfl
  have hmark : Numeral.isExponentMark d = false := by obtain rfl | rfl | rfl | rfl := hd <;> rfl
  have hsign : (d == '+' || d == '-') = false := by obtain rfl | rfl | rfl | rfl := hd <;> rfl
  apply Numeral.eq_of_exponent
  match front with
  | [] =>
    rw [List.nil_append, Numeral.exponent_of_stops]
    rintro _ ⟨⟩
    exact hmark
  | [a] => simp [Numeral.exponent, hdigit, hsign]
  | [a, b] =>
    cases ha : Numeral.isExponentMark a <;> cases hb : b.isDigit <;>
      simp [Numeral.exponent, ha, hb, hdigit] at h ⊢
  | a :: b :: e :: front =>
    simp only [List.cons_append, Numeral.exponent] at h ⊢
    split at h
    · cases h
    next hdigits =>
      rw [if_neg hdigits]
      split at h
      · cases h
      next hsigned => exact (if_neg hsigned).symm ▸ rfl

/-- Operators hold no letters, so one is read as before in front of another word. -/
theorem operator {a : Char} {w : List Char} {op : Operator} (hc : isWordStart c = true)
    (hd : isWordStart d = true)
    (h : Piece.operator a (w ++ (front ++ c :: rest)) =
      .token (.operator op) (a :: w) (front ++ c :: rest)) :
    Piece.operator a (w ++ (front ++ d :: behind)) =
      .token (.operator op) (a :: w) (front ++ d :: behind) := by
  rw [← List.append_assoc, Piece.operator_stop (Operator.wordStart_notMem_glyphs hc)] at h
  rw [← List.append_assoc, Piece.operator_stop (Operator.wordStart_notMem_glyphs hd)]
  generalize Piece.operator a (w ++ front) = q at h ⊢
  obtain ⟨reading, text, gap, after⟩ := q
  simp only [Piece.followed, Piece.token, Piece.mk.injEq, List.append_cancel_right_eq] at h ⊢
  exact ⟨h.1, h.2.1, h.2.2.1, h.2.2.2⟩

/-- What is no directive is none with the name of a type in the place of its end. -/
theorem directive? {k : Keyword} (hk : k.IsType) (hbehind : Stops isWordChar behind)
    (h : Piece.directive? (front ++ c :: rest) = none) :
    Piece.directive? (front ++ (k.spelling.toList ++ behind)) = none := by
  obtain ⟨d, w, hspelling, -, hw⟩ := hk.spelling_cases
  rw [← hspelling] at hw
  rw [Piece.directive?, Option.map_eq_none_iff] at h ⊢
  by_cases hfront : ∀ a ∈ front, isWordChar a = true
  · rw [← List.append_assoc, hbehind.takeWhile, ← List.cons_append]
    · exact hk.ofSpelling?_directive ('.' :: front)
    · intro a ha
      exact (List.mem_append.1 ha).elim (hfront a) (hw a)
  · have hshort : (front.takeWhile isWordChar).length ≠ front.length := by
      intro hlength
      refine hfront fun a ha => ?_
      rw [← (List.takeWhile_prefix isWordChar).eq_of_length hlength] at ha
      exact mem_takeWhile ha
    rw [List.takeWhile_append, if_neg hshort] at h ⊢
    exact h

/-- An operator is read as before in front of another word. -/
theorem scan {k : Keyword} (hk : k.IsType) (hc : isWordStart c = true)
    (hbehind : Stops isWordChar behind) {signAllowed : Bool} {op : Operator} {a : Char}
    {w : List Char} (hop : op.glyphs = a :: w)
    (h : Piece.scan signAllowed a (w ++ (front ++ c :: rest)) =
      .token (.operator op) (a :: w) (front ++ c :: rest)) :
    Piece.scan signAllowed a (w ++ (front ++ (k.spelling.toList ++ behind))) =
      .token (.operator op) (a :: w) (front ++ (k.spelling.toList ++ behind)) := by
  obtain ⟨d, u, hspelling, hinitial, -⟩ := hk.spelling_cases
  have hd : isWordStart d = true := by obtain rfl | rfl | rfl | rfl := hinitial <;> rfl
  have hdigit : c.isDigit = false := by
    rw [← Bool.not_eq_true]
    intro hdigit
    rw [isWordStart_of_isDigit hdigit] at hc
    cases hc
  have hdigit' : d.isDigit = false := by obtain rfl | rfl | rfl | rfl := hinitial <;> rfl
  have ha : isMark a = true := by
    cases op <;> obtain ⟨rfl, -⟩ := List.cons.inj hop <;> decide
  -- What stands behind the operator begins alike in both texts.
  have hhead {p : Char → Bool} (hp : p c = p d) : (w ++ (front ++ c :: rest)).head?.any p =
      (w ++ (front ++ (k.spelling.toList ++ behind))).head?.any p := by
    rw [hspelling]
    cases w with
    | cons => rfl
    | nil =>
      cases front with
      | cons => rfl
      | nil => exact hp
  rw [Piece.scan_of_isMark ha] at h ⊢
  rw [← hhead (hc.trans hd.symm), ← hhead (hdigit.trans hdigit'.symm)]
  split at h
  next hdot =>
    rw [if_pos hdot]
    cases hfound : Piece.directive? (w ++ (front ++ c :: rest)) with
    | some q =>
      rw [hfound] at h
      obtain ⟨e, -, rfl⟩ := Option.map_eq_some_iff.1 hfound
      cases h
    | none =>
      rw [hfound] at h
      rw [← List.append_assoc] at hfound
      rw [← List.append_assoc, directive? hk hbehind hfound, hspelling, List.append_assoc]
      exact operator hc hd h
  next hdot =>
    rw [if_neg hdot]
    split at h
    next =>
      exact absurd (congrArg Piece.reading h) (Numeral.reading_ne_operator _ _)
    next hstarts =>
      rw [if_neg hstarts, hspelling]
      exact operator hc hd h

/-- A text that parts at the name of a type ends a token as the other one does. -/
theorem ends (hk : k.IsType) (h : WordFork k rest tail) (signAllowed : Bool) :
    Ends signAllowed signAllowed rest tail := by
  cases h with
  | same =>
    exact ⟨id, id, id, id, id, id, fun _ => id, Numeral.eq_of_fraction, Numeral.eq_of_exponent,
      fun _ => id⟩
  | @word front c rest behind hc hbehind =>
    obtain ⟨d, w, hspelling, hinitial, -⟩ := hk.spelling_cases
    have hd : isWordStart d = true := by obtain rfl | rfl | rfl | rfl := hinitial <;> rfl
    have htail : front ++ (k.spelling.toList ++ behind) = front ++ d :: (w ++ behind) := by
      rw [hspelling]
      rfl
    refine ⟨id, ?_, ?_, ?_, ?_, ?_, fun u hu => ?_, ?_, ?_, fun hop => scan hk hc hbehind hop⟩
    all_goals rw [htail]
    · exact stops (.inr (isWordChar_of_isWordStart hc))
    · exact endsLabel hd
    · exact closesLabel hc
    · exact stops (.inl (by obtain rfl | rfl | rfl | rfl := hinitial <;> rfl))
    · exact stops (.inl (by obtain rfl | rfl | rfl | rfl := hinitial <;> rfl))
    · rw [← List.append_assoc] at hu ⊢
      exact radix? hinitial hu
    · exact fraction hinitial
    · exact exponent hinitial

end WordFork

/-! The pieces of a text -/

namespace Lexer

/-- The pieces of a text, each behind the blanks and the comment in front of it, and the blanks at
the end. -/
def pieces (l : Lexer) : List (List Char × Piece) × List Char :=
  match h : splitTrivia l.rest with
  | (trivia, []) => ([], trivia)
  | (trivia, c :: cs) =>
    let p := Piece.scan (l.sign.permits !trivia.isEmpty) c cs
    let l' := ((l.pass trivia (c :: cs)).take p).2
    have : l'.rest.length < l.rest.length := by
      rw [rest_take, ← splitTrivia_append l.rest, h, List.length_append]
      exact Nat.lt_of_lt_of_le (Piece.length_rest_scan _ c cs) (Nat.le_add_left _ _)
    ((trivia, p) :: l'.pieces.1, l'.pieces.2)
termination_by l.rest.length

/-- The text with each token that is spelled `v` spelled like the keyword. -/
def respelled (v : List Char) (k : Keyword) (l : Lexer) : List Char :=
  (l.pieces.1.flatMap fun (trivia, p) =>
    trivia ++ (if p.text = v then k.spelling.toList else p.text) ++ p.gap) ++ l.pieces.2

/-- Whether a number with its sign stands directly behind a token `v`. A digit that stood there
would be part of `v`. -/
def glued (v : List Char) (l : Lexer) : Bool :=
  l.pieces.1.any fun (_, p) => p.text == v && p.gap.isEmpty && Numeral.starts true p.rest

variable {l l' m : Lexer} {t : Token} {v : List Char} {k : Keyword}

theorem pieces_of_done (h : l.next = (.done, l')) :
    splitTrivia l.rest = (l.rest, []) ∧ l.pieces = ([], l.rest) := by
  have hsplit : splitTrivia l.rest = (l.rest, []) := by
    have happend := splitTrivia_append l.rest
    rw [next_eq] at h
    split at h
    next hnil =>
      rw [hnil, List.append_nil] at happend
      exact Prod.ext happend hnil
    next =>
      unfold take at h
      dsimp only at h
      split at h <;> cases h
  refine ⟨hsplit, ?_⟩
  rw [pieces]
  split
  next trivia heq =>
    rw [hsplit] at heq
    cases heq
    rfl
  next heq =>
    rw [hsplit] at heq
    cases heq

/-- A token is the first piece of a text. -/
theorem pieces_of_token (h : l.next = (.token t, l')) : ∃ trivia c cs p,
    splitTrivia l.rest = (trivia, c :: cs) ∧
      Piece.scan (l.sign.permits !trivia.isEmpty) c cs = p ∧ p.reading = .ok t.kind ∧
      p.gap = t.kind.colon ∧ t.lexeme = String.ofList p.text ∧ l'.rest = p.rest ∧
      l'.sign = SignRule.after t.kind ∧
      l.pieces = ((trivia, p) :: l'.pieces.1, l'.pieces.2) := by
  cases hsplit : splitTrivia l.rest with
  | mk trivia rest =>
  rw [next_eq, hsplit] at h
  cases rest with
  | nil => cases h
  | cons c cs =>
    have hpieces : l.pieces =
        ((trivia, Piece.scan (l.sign.permits !trivia.isEmpty) c cs) ::
          ((l.pass trivia (c :: cs)).take
            (Piece.scan (l.sign.permits !trivia.isEmpty) c cs)).2.pieces.1,
          ((l.pass trivia (c :: cs)).take
            (Piece.scan (l.sign.permits !trivia.isEmpty) c cs)).2.pieces.2) := by
      rw [pieces]
      split
      next heq =>
        rw [hsplit] at heq
        cases heq
      next heq =>
        rw [hsplit] at heq
        cases heq
        rfl
    rw [hpieces]
    refine ⟨trivia, c, cs, _, rfl, rfl, ?_⟩
    -- From here on it does not matter how the piece was scanned.
    have hgap := Piece.gap_scan (l.sign.permits !trivia.isEmpty) c cs
    dsimp only at h
    generalize Piece.scan (l.sign.permits !trivia.isEmpty) c cs = p at h hgap
    rw [h]
    unfold take at h
    dsimp only at h
    split at h
    next kind hread =>
      cases h
      rw [hread] at hgap
      exact ⟨hread, hgap, rfl, rfl, rfl, rfl⟩
    next => cases h

/-- The text that is left, from its pieces. -/
theorem rest_of_pieces {trivia : List Char} {p : Piece} {c : Char} {cs : List Char}
    (hsplit : splitTrivia l.rest = (trivia, c :: cs))
    (hscan : Piece.scan (l.sign.permits !trivia.isEmpty) c cs = p) :
    l.rest = trivia ++ (p.text ++ p.gap ++ p.rest) := by
  have hwhole := Piece.whole_scan (l.sign.permits !trivia.isEmpty) c cs
  rw [hscan, Piece.whole] at hwhole
  have happend := splitTrivia_append l.rest
  rw [hsplit] at happend
  rw [hwhole, happend]

end Lexer

/-- A token of the text with `v` spelled like the keyword, and the token that stood in its place. -/
inductive Token.Respelt (v : String) (k : Keyword) (t u : Token) : Prop
  | same : t.lexeme ≠ v → u.kind = t.kind → u.lexeme = t.lexeme → Respelt v k t u
  | name : t.lexeme = v → t.kind = .identifier → u.kind = .keyword k →
      u.lexeme = k.spelling → Respelt v k t u
  | label : t.lexeme = v → t.kind = .label → u.kind = .label → u.lexeme = k.spelling →
      Respelt v k t u

/-- The signs in front of numbers are read alike in two texts. -/
def Lexer.SignsLike (l m : Lexer) : Prop :=
  m.sign = l.sign ∨
    l.sign = .spaced ∧ m.sign = .allowed ∧ Numeral.starts true l.rest = false

/-- Only a newline ends a comment. -/
theorem IsTrivia.front {trivia v v' : List Char} {c c' : Char} (h : IsTrivia trivia (c :: v))
    (hc : c ≠ c' → c ≠ '\n') : IsTrivia trivia (c' :: v') := by
  obtain ⟨blanks, comment, rfl, hblanks, rfl | ⟨inside, rfl, hinside, hbehind⟩⟩ := h
  · exact ⟨blanks, [], rfl, hblanks, .inl rfl⟩
  · obtain rfl : c = '\n' := by simpa using hbehind
    obtain rfl : '\n' = c' := by
      by_contra hne
      exact hc hne rfl
    exact ⟨blanks, _, rfl, hblanks, .inr ⟨inside, rfl, hinside, .inr rfl⟩⟩

namespace Piece

/-- A colon ends a label, and no word goes on behind a name. -/
theorem word_behind (cs : List Char) :
    (word cs).gap = [':'] ∨ (word cs).gap = [] ∧ Stops isWordChar (word cs).rest := by
  obtain ⟨rest, -, -, hword⟩ | hword := word_cases cs
  · rw [hword]
    exact .inl rfl
  · rw [hword]
    exact .inr ⟨rfl, stops_dropWhile _ _⟩

/-- A token that is spelled like a word was read as one. -/
theorem isWordStart_of_text {signAllowed : Bool} {c : Char} {cs : List Char} {kind : TokenKind}
    {v : String} (hv : IsWord v) (hread : (scan signAllowed c cs).reading = .ok kind)
    (htext : (scan signAllowed c cs).text = v.toList) : isWordStart c = true := by
  obtain ⟨d, w, hv, hd, -⟩ := hv
  obtain ⟨u, hu, -⟩ := scan_again hread
  rw [hu, hv] at htext
  rwa [(List.cons.inj htext).1]

/-- Whether signs are allowed matters only in front of a number. -/
theorem scan_of_starts {c : Char} {cs : List Char} (h : Numeral.starts true (c :: cs) = false) :
    scan true c cs = scan false c cs := by
  have hnone : Numeral.starts false (c :: cs) = false := by
    simp only [Numeral.starts, Bool.or_eq_false_iff, Bool.false_and, Bool.or_false] at h ⊢
    exact h.1
  simp only [scan, h, hnone]

theorem starts_append {signAllowed signAllowed' : Bool} {c : Char} {w rest tail : List Char}
    (hends : Ends signAllowed signAllowed' rest tail)
    (h : Numeral.starts true (c :: (w ++ rest)) = false) :
    Numeral.starts true (c :: (w ++ tail)) = false := by
  simp only [Numeral.starts, Bool.true_and, Bool.or_eq_false_iff, Bool.and_eq_false_iff] at h ⊢
  refine ⟨h.1, h.2.imp_right fun hhead => ?_⟩
  exact ((Stops.of_any_head? hhead).append hends.digit).any_head?

end Piece

namespace Lexer

variable {l l' m : Lexer} {t : Token} {ts : List Token} {v : String} {k : Keyword}

theorem respelled_of_token {trivia : List Char} {p : Piece}
    (hpieces : l.pieces = ((trivia, p) :: l'.pieces.1, l'.pieces.2)) (v : List Char) (k : Keyword) :
    l.respelled v k = trivia ++
      ((if p.text = v then k.spelling.toList else p.text) ++ p.gap ++ l'.respelled v k) := by
  simp only [respelled, hpieces, List.flatMap_cons, List.append_assoc]

theorem glued_of_token {trivia : List Char} {p : Piece}
    (hpieces : l.pieces = ((trivia, p) :: l'.pieces.1, l'.pieces.2)) {v : List Char}
    (h : l.glued v = false) :
    (p.text = v → p.gap = [] → Numeral.starts true p.rest = false) ∧ l'.glued v = false := by
  simp only [glued, hpieces, List.any_cons, Bool.or_eq_false_iff] at h
  refine ⟨fun htext hgap => ?_, h.2⟩
  simpa [htext, hgap] using h.1

theorem done_of_steps (h : l.steps = []) : ∃ l', l.next = (.done, l') := by
  rw [steps_eq] at h
  cases hnext : l.next with
  | mk step l' =>
  rw [hnext] at h
  cases step with
  | token => cases h
  | fault => cases h
  | done => exact ⟨l', rfl⟩

theorem wordFork_respelled (hv : IsWord v) (hsteps : l.steps = ts.map .ok) (k : Keyword)
    (hk : k.IsType) : WordFork k l.rest (l.respelled v.toList k) := by
  induction ts generalizing l with
  | nil =>
    obtain ⟨l', hdone⟩ := done_of_steps hsteps
    rw [respelled, (pieces_of_done hdone).2]
    exact .same _
  | cons t ts ih =>
    obtain ⟨l', hnext⟩ := next_of_steps hsteps
    rw [steps_of_token hnext] at hsteps
    have htail := ih (List.cons.inj hsteps).2
    obtain ⟨trivia, c, cs, p, hsplit, hscan, hread, -, -, hrest, -, hpieces⟩ :=
      pieces_of_token hnext
    rw [respelled_of_token hpieces, rest_of_pieces hsplit hscan, ← hrest]
    apply WordFork.append
    split
    next htext =>
      have hstops : Stops isWordChar (p.gap ++ l'.respelled v.toList k) := by
        have hc := Piece.isWordStart_of_text hv (hscan ▸ hread) (hscan ▸ htext)
        rw [Piece.scan_of_isWordStart hc] at hscan
        -- A label has its colon behind it, and behind a name no word goes on.
        obtain hgap | ⟨hgap, hbehind⟩ := Piece.word_behind (c :: cs)
        · rw [← hscan, hgap]
          rintro _ ⟨⟩
          rfl
        · rw [hscan] at hgap hbehind
          rw [hgap]
          exact (htail.ends hk true).word (hrest ▸ hbehind)
      obtain ⟨d, w, hv, hd, -⟩ := hv
      rw [hv] at hstops
      rw [htext, hv, List.append_assoc, List.append_assoc]
      exact .word [] hd hstops
    next => exact htail.append _

/-- The scanner reads the same piece with the signs of the other text. -/
theorem SignsLike.scan (hsign : l.SignsLike m) {trivia : List Char} {c : Char} {cs v : List Char}
    (hsplit : splitTrivia l.rest = (trivia, c :: cs))
    (hstarts : Numeral.starts true (c :: cs) = false → Numeral.starts true (c :: v) = false) :
    Piece.scan (m.sign.permits !trivia.isEmpty) c v =
      Piece.scan (l.sign.permits !trivia.isEmpty) c v := by
  obtain heq | ⟨hspaced, hallowed, hnone⟩ := hsign
  · rw [heq]
  · rw [hspaced, hallowed]
    cases trivia with
    | cons => rfl
    | nil =>
      have hrest := splitTrivia_append l.rest
      rw [hsplit] at hrest
      rw [← hrest] at hnone
      exact Piece.scan_of_starts (hstarts hnone)

/-- A token that is not respelled is read again. -/
theorem next_same (hk : k.IsType) (hsign : l.SignsLike m)
    {trivia : List Char} {p : Piece} {c : Char} {cs tail : List Char}
    (hsplit : splitTrivia l.rest = (trivia, c :: cs))
    (hscan : Piece.scan (l.sign.permits !trivia.isEmpty) c cs = p) (hread : p.reading = .ok t.kind)
    (hgap : p.gap = t.kind.colon) (hlexeme : t.lexeme = String.ofList p.text)
    (hrest : m.rest = trivia ++ (p.text ++ p.gap ++ tail)) (hfork : WordFork k p.rest tail) :
    ∃ u m', m.next = (.token u, m') ∧ u.kind = t.kind ∧ u.lexeme = t.lexeme ∧ m'.rest = tail ∧
      m'.sign = SignRule.after t.kind := by
  subst hscan
  obtain ⟨w, htext, hagain⟩ := Piece.scan_again hread
  have hends := hfork.ends hk (l.sign.permits !trivia.isEmpty)
  have hscan := hagain _ tail hends
  have hwhole := Piece.whole_scan (l.sign.permits !trivia.isEmpty) c cs
  rw [Piece.whole, htext, hgap] at hwhole
  rw [← hsign.scan hsplit] at hscan
  · obtain ⟨hblank, hcomment⟩ := Piece.not_trivia_of_scan hread
    have htrivia := splitTrivia_isTrivia l.rest
    rw [hsplit] at htrivia
    have hsplit' := (htrivia.front (absurd rfl)).split (v := w ++ t.kind.colon ++ tail) hblank
      hcomment
    rw [htext, hgap] at hrest
    obtain ⟨u, m', h, hkind, hlex, hrest', hsign'⟩ := next_of_split (hrest ▸ hsplit') hscan rfl
    refine ⟨u, m', h, hkind, ?_, hrest', hsign'⟩
    rw [hlex, hlexeme, htext]
  · intro hnone
    have hcs : cs = w ++ t.kind.colon ++ (Piece.scan (l.sign.permits !trivia.isEmpty) c cs).rest :=
      (List.cons.inj hwhole).2.symm
    rw [hcs] at hnone
    exact Piece.starts_append hends hnone

/-- A word is read where another word stood. -/
theorem next_word {trivia cs z : List Char} {c d : Char} {q : Piece} {kind : TokenKind}
    (htrivia : IsTrivia trivia (c :: cs)) (hc : isWordStart c = true) (hd : isWordStart d = true)
    (hrest : m.rest = trivia ++ d :: z) (hword : Piece.word (d :: z) = q)
    (hq : q.reading = .ok kind) :
    ∃ u m', m.next = (.token u, m') ∧ u.kind = kind ∧ u.lexeme = String.ofList q.text ∧
      m'.rest = q.rest ∧ m'.sign = SignRule.after kind := by
  have hscan : Piece.scan (m.sign.permits !trivia.isEmpty) d z = q :=
    (Piece.scan_of_isWordStart hd _ _).trans hword
  obtain ⟨hblank, hcomment⟩ := Piece.not_trivia_of_scan (hscan ▸ hq)
  have hfront : IsTrivia trivia (d :: z) := htrivia.front fun _ => by
    rintro rfl
    cases hc
  exact next_of_split (hrest ▸ hfront.split hblank hcomment) hscan hq

/-- A name that is respelled is read as the keyword, and a label as a label. -/
theorem next_respelt (hk : k.IsType) (hv : IsWord v)
    (hname : TokenKind.ofName v.toList = .identifier) {trivia : List Char} {p : Piece} {c : Char}
    {cs tail : List Char}
    (hsplit : splitTrivia l.rest = (trivia, c :: cs))
    (hscan : Piece.scan (l.sign.permits !trivia.isEmpty) c cs = p) (hread : p.reading = .ok t.kind)
    (hgap : p.gap = t.kind.colon) (htext : p.text = v.toList)
    (hrest : m.rest = trivia ++ (k.spelling.toList ++ p.gap ++ tail))
    (hfork : WordFork k p.rest tail) :
    ∃ u m', m.next = (.token u, m') ∧ (t.kind = .identifier ∧ u.kind = .keyword k ∨
      t.kind = .label ∧ u.kind = .label) ∧ u.lexeme = k.spelling ∧ m'.rest = tail ∧
      m'.sign = SignRule.after u.kind := by
  obtain ⟨d, w, hspelling, hinitial, hw⟩ := hk.spelling_cases
  have hd : isWordStart d = true := by obtain rfl | rfl | rfl | rfl := hinitial <;> rfl
  have hc := Piece.isWordStart_of_text hv (hscan ▸ hread) (hscan ▸ htext)
  have hends := hfork.ends hk true
  rw [Piece.scan_of_isWordStart hc] at hscan
  subst hscan
  have htrivia := splitTrivia_isTrivia l.rest
  rw [hsplit] at htrivia
  have hnext (z : List Char) (q : Piece) (kind : TokenKind)
      (hrest : m.rest = trivia ++ (k.spelling.toList ++ z))
      (hword : Piece.word (k.spelling.toList ++ z) = q) (hq : q.reading = .ok kind) :
      ∃ u m', m.next = (.token u, m') ∧ u.kind = kind ∧ u.lexeme = String.ofList q.text ∧
        m'.rest = q.rest ∧ m'.sign = SignRule.after kind := by
    rw [hspelling, List.cons_append] at hrest hword
    exact next_word htrivia hc hd hrest hword hq
  -- In the place of a label a label is read, and in the place of a name the keyword.
  obtain ⟨hread', hword⟩ | ⟨hread', hword⟩ := Piece.word_again hends (hspelling ▸ hw)
  · obtain heq := Except.ok.inj (hread.symm.trans hread')
    rw [hgap, heq, List.append_assoc] at hrest
    obtain ⟨u, m', h, hkind, hlex, hrest', hsign'⟩ := hnext _ _ _ hrest hword rfl
    exact ⟨u, m', h, .inr ⟨heq, hkind⟩, by rw [hlex, String.ofList_toList], hrest', hkind ▸ hsign'⟩
  · rw [← Piece.text_word, htext, hname] at hread'
    obtain heq := Except.ok.inj (hread.symm.trans hread')
    rw [hgap, heq, show TokenKind.identifier.colon = [] from rfl, List.append_nil] at hrest
    obtain ⟨u, m', h, hkind, hlex, hrest', hsign'⟩ := hnext _ _ _ hrest hword rfl
    rw [Keyword.ofName_spelling] at hkind
    exact ⟨u, m', h, .inl ⟨heq, hkind⟩, by rw [hlex, Piece.token, String.ofList_toList], hrest',
      hkind ▸ Keyword.ofName_spelling k ▸ hsign'⟩

/-- The tokens of a text with `v` spelled like the keyword are those of the text, respelt. -/
theorem steps_respelled (hk : k.IsType) (hv : IsWord v)
    (hname : TokenKind.ofName v.toList = .identifier) (hsteps : l.steps = ts.map .ok)
    (hrest : m.rest = l.respelled v.toList k) (hsign : l.SignsLike m)
    (hglued : l.glued v.toList = false) :
    ∃ us : List Token, m.steps = us.map .ok ∧ List.Forall₂ (Token.Respelt v k) ts us := by
  -- The induction is on the tokens: what is kept is that signs are read alike.
  induction ts generalizing l m with
  | nil =>
    obtain ⟨l', hdone⟩ := done_of_steps hsteps
    obtain ⟨hsplit, hpieces⟩ := pieces_of_done hdone
    have hnil : m.rest = l.rest := by
      rw [hrest, respelled, hpieces]
      rfl
    have hnext : m.next = (.done, m.pass l.rest []) := by rw [next_eq, hnil, hsplit]
    exact ⟨[], steps_of_done hnext, .nil⟩
  | cons t ts ih =>
    obtain ⟨l', hnext⟩ := next_of_steps hsteps
    rw [steps_of_token hnext] at hsteps
    have hsteps' := (List.cons.inj hsteps).2
    have hfork := wordFork_respelled hv hsteps' k hk
    obtain ⟨trivia, c, cs, p, hsplit, hscan, hread, hgap, hlexeme, hrest', hsign', hpieces⟩ :=
      pieces_of_token hnext
    obtain ⟨hstarts, hglued'⟩ := glued_of_token hpieces hglued
    rw [hrest'] at hfork
    rw [respelled_of_token hpieces] at hrest
    by_cases htext : p.text = v.toList
    · rw [if_pos htext] at hrest
      obtain ⟨u, m', hnext', hkind, hlexeme', hrestm, hsignm⟩ :=
        next_respelt hk hv hname hsplit hscan hread hgap htext hrest hfork
      have hspelled : t.lexeme = v := by rw [hlexeme, htext, String.ofList_toList]
      have hlike : l'.SignsLike m' ∧ t.Respelt v k u := by
        obtain ⟨hidentifier, hkeyword⟩ | ⟨hlabel, hlabel'⟩ := hkind
        · rw [hidentifier] at hsign'
          rw [hkeyword] at hsignm
          rw [hidentifier] at hgap
          exact ⟨.inr ⟨hsign', hsignm, hrest' ▸ hstarts htext hgap⟩,
            .name hspelled hidentifier hkeyword hlexeme'⟩
        · rw [hlabel] at hsign'
          rw [hlabel'] at hsignm
          exact ⟨.inl (hsignm.trans hsign'.symm), .label hspelled hlabel hlabel' hlexeme'⟩
      obtain ⟨us, hus, hall⟩ := ih hsteps' hrestm hlike.1 hglued'
      exact ⟨u :: us, by rw [steps_of_token hnext', hus]; rfl, .cons hlike.2 hall⟩
    · rw [if_neg htext] at hrest
      obtain ⟨u, m', hnext', hkind, hlexeme', hrestm, hsignm⟩ :=
        next_same hk hsign hsplit hscan hread hgap hlexeme hrest hfork
      obtain ⟨us, hus, hall⟩ := ih hsteps' hrestm (.inl (hsignm.trans hsign'.symm)) hglued'
      have hne : t.lexeme ≠ v := by
        rw [hlexeme]
        rintro rfl
        exact htext String.toList_ofList.symm
      exact ⟨u :: us, by rw [steps_of_token hnext', hus]; rfl,
        .cons (.same hne hkind hlexeme') hall⟩

end Lexer
end PirFrontend
