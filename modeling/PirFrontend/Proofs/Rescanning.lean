import PirFrontend.Proofs.LeadingLabels
import PirFrontend.Proofs.Separators
import PirFrontend.Proofs.Tiling

/-!
What was read as a token is read as that token again, wherever its text stands in front of a blank
or a mark that begins no longer token.
-/
namespace PirFrontend

/-- The characters that begin no token but an operator. -/
def isMark (c : Char) : Bool :=
  c != '\n' && c != '"' && c != '\'' && c != '$' && c != ':' && !isWordStart c && !c.isDigit

theorem isWordStart_of_isDigit {c : Char} (h : c.isDigit = true) : isWordStart c = false := by
  have hne : c ≠ '_' := by
    rintro rfl
    exact absurd h (by decide)
  have hword : isWordStart c = (decide ('A'.val ≤ c.val ∧ c.val ≤ 'Z'.val) ||
      (decide ('a'.val ≤ c.val) && decide (c.val ≤ 'z'.val)) || c == '_') := rfl
  simp only [Char.isDigit, Bool.and_eq_true, decide_eq_true_eq, ge_iff_le,
    UInt32.le_iff_toNat_le] at h
  simp [hword, hne, UInt32.le_iff_toNat_le] at h ⊢
  omega

/-! Pieces -/

namespace Piece

variable {w run tail : List Char}

theorem word_eq_name (hw : ∀ c ∈ w, isWordChar c = true) (hstops : Stops isWordChar tail)
    (hname : endsLabel tail = false) : word (w ++ tail) = .token (.ofName w) w tail := by
  obtain ⟨rest, hrest, hcloses, -⟩ | h := word_cases (w ++ tail)
  · rw [hstops.dropWhile hw] at hrest
    rw [hrest, endsLabel, hcloses] at hname
    cases hname
  · rwa [hstops.takeWhile hw, hstops.dropWhile hw] at h

theorem word_eq_label (hw : ∀ c ∈ w, isWordChar c = true) (hcloses : closesLabel tail = true) :
    word (w ++ ':' :: tail) = ⟨.ok .label, w, [':'], tail⟩ := by
  have hcolon : Stops isWordChar (':' :: tail) := by
    rintro _ ⟨⟩
    rfl
  unfold word
  simp only [hcolon.takeWhile hw, hcolon.dropWhile hw, hcloses, if_true]

theorem register_again {kind : TokenKind} (hkind : registerKind? run = some kind)
    (hrun : ∀ c ∈ run, isWordChar c = true) (hstops : Stops isWordChar tail) :
    register (run ++ tail) = .token kind ('$' :: run) tail := by
  simp only [register, hstops.takeWhile hrun, hstops.dropWhile hrun, hkind]

theorem flag_again {f : FlagWord} (hf : FlagWord.ofSpelling? (String.ofList (':' :: run)) = some f)
    (hrun : ∀ c ∈ run, isWordChar c = true) (hstops : Stops isWordChar tail) :
    flag (run ++ tail) = .token (.flag f) (':' :: run) tail := by
  simp only [flag, hstops.takeWhile hrun, hstops.dropWhile hrun, hf]

theorem directive?_again {d : Directive}
    (hd : Directive.ofSpelling? (String.ofList ('.' :: run)) = some d)
    (hrun : ∀ c ∈ run, isWordChar c = true) (hstops : Stops isWordChar tail) :
    directive? (run ++ tail) = some (.token (.directive d) ('.' :: run) tail) := by
  simp only [directive?, hstops.takeWhile hrun, hstops.dropWhile hrun, hd, Option.map_some]

theorem quoted_again {quote : Char} (hquote : quote ≠ '\n') {v : List Char} {b : Quoted.Body}
    (hb : Quoted.body? quote v = some b) (tail : List Char) :
    Quoted.scan quote (b.text ++ tail) =
      .token (.string (String.ofList b.contents)) (quote :: b.text) tail := by
  simp only [Quoted.scan, Quoted.body?_again hquote v tail b hb]

theorem operator_again {op : Operator} {c : Char} (hop : op.glyphs = c :: w)
    (htail : Separated tail) : operator c (w ++ tail) = .token (.operator op) (c :: w) tail := by
  have hscan := op.scan?_glyphs htail
  rw [hop, List.cons_append] at hscan
  simp only [operator, hscan, hop]

/-- What begins with a mark is an operator, unless it is a directive or a number with its sign. -/
theorem scan_of_isMark {c : Char} (hc : isMark c = true) (signAllowed : Bool) (v : List Char) :
    scan signAllowed c v =
      if c = '.' ∧ v.head?.any isWordStart = true then (directive? v).getD (operator c v)
      else if (signAllowed && c == '-' && v.head?.any Char.isDigit) = true then
        Numeral.scan (c :: v)
      else operator c v := by
  simp only [isMark, Bool.and_eq_true, bne_iff_ne, Bool.not_eq_true', and_assoc] at hc
  obtain ⟨hnewline, hdouble, hsingle, hdollar, hcolon, hword, hnumber⟩ := hc
  simp only [scan, Numeral.starts, hnewline, hdouble, hsingle, or_self, hdollar, hcolon, hword,
    hnumber, false_and, if_false, Bool.false_eq_true, Bool.false_or]

theorem scan_eq_operator {signAllowed : Bool} {c : Char} {v : List Char}
    (hc : isMark c = true) (hname : v.head?.any isWordStart = false)
    (hdigit : v.head?.any Char.isDigit = false) : scan signAllowed c v = operator c v := by
  simp only [scan_of_isMark hc, hname, hdigit, Bool.and_false, and_false, if_false,
    Bool.false_eq_true]

theorem scan_glyphs {signAllowed : Bool} {op : Operator} {c : Char} (hop : op.glyphs = c :: w)
    (htail : Separated tail) : scan signAllowed c (w ++ tail) =
      .token (.operator op) (c :: w) tail := by
  have hc : isMark c = true := by
    cases op <;> obtain ⟨rfl, -⟩ := List.cons.inj hop <;> decide
  have hw : w.head?.any isWordStart = false ∧ w.head?.any Char.isDigit = false := by
    cases op <;> obtain ⟨-, rfl⟩ := List.cons.inj hop <;> decide
  have hbehind (p : Char → Bool) (hp : w.head?.any p = false) (hstops : Stops p tail) :
      (w ++ tail).head?.any p = false := by
    cases w with
    | nil => exact hstops.any_head?
    | cons => exact hp
  rw [scan_eq_operator hc (hbehind _ hw.1 (htail.stops (by decide)))
    (hbehind _ hw.2 (htail.stops (by decide)))]
  exact operator_again hop htail

theorem scan_flag {v : List Char} (h : v.head?.any isWordStart = true) (signAllowed : Bool) :
    scan signAllowed ':' v = flag v := by
  simp [scan, h]

theorem scan_directive {v : List Char} (h : v.head?.any isWordStart = true) (signAllowed : Bool) :
    scan signAllowed '.' v = (directive? v).getD (operator '.' v) := by
  simp [scan, h]

theorem scan_number {signAllowed : Bool} {c : Char} {v : List Char}
    (h : Numeral.starts signAllowed (c :: v) = true) :
    scan signAllowed c v = Numeral.scan (c :: v) := by
  have hc : c.isDigit = true ∨ c = '-' := by
    simp only [Numeral.starts, Bool.or_eq_true, Bool.and_eq_true, beq_iff_eq] at h
    exact h.imp_right fun h => h.1.2
  have hne {d : Char} (hd : d.isDigit = false) (hminus : d ≠ '-') : c ≠ d := by
    rintro rfl
    simp [hd, hminus] at hc
  have hword : isWordStart c = false := by
    obtain hdigit | rfl := hc
    · exact isWordStart_of_isDigit hdigit
    · rfl
  simp only [scan, hne (d := '\n') (by decide) (by decide), hne (d := '"') (by decide) (by decide),
    hne (d := '\'') (by decide) (by decide), hne (d := '$') (by decide) (by decide),
    hne (d := ':') (by decide) (by decide), hne (d := '.') (by decide) (by decide),
    hword, h, or_self, false_and, if_false, Bool.false_eq_true, if_true]

end Piece

/-- A separator ends every token. -/
theorem Separated.ends {signAllowed signAllowed' : Bool} {tail : List Char}
    (h : Separated tail) (hallowed : signAllowed = true → signAllowed' = true)
    (rest : List Char) : Ends signAllowed signAllowed' rest tail where
  allowed := hallowed
  word _ := h.stops (by decide)
  name _ := h.endsLabel
  label _ := h.closesLabel
  digit _ := h.stops (by decide)
  minus _ := h.stops (by decide)
  radix? _ hnone := Numeral.radix?_again hnone h
  fraction _ := Numeral.fraction_of_stops (h.stops (by decide))
  exponent _ := Numeral.exponent_of_stops (h.stops (by decide))
  operator hop _ := Piece.scan_glyphs hop h

namespace Piece

variable {w tail : List Char}

theorem endsLabel_of_word {cs : List Char} {kind : TokenKind}
    (h : word cs = .token kind (cs.takeWhile isWordChar) (cs.dropWhile isWordChar)) :
    endsLabel (cs.dropWhile isWordChar) = false := by
  by_contra hlabel
  obtain ⟨rest, hrest, hcloses⟩ : ∃ rest, cs.dropWhile isWordChar = ':' :: rest ∧
      closesLabel rest = true := by
    unfold endsLabel at hlabel
    split at hlabel
    next rest hrest => exact ⟨rest, hrest, by simpa using hlabel⟩
    next => exact absurd rfl hlabel
  have hword := word_eq_label (w := cs.takeWhile isWordChar) (fun d hd => mem_takeWhile hd) hcloses
  rw [← hrest, List.takeWhile_append_dropWhile, h] at hword
  -- A label has a gap behind it.
  have hgap := congrArg Piece.gap hword
  cases hgap

/-- In the place of a label or a name another word is one too. -/
theorem word_again {signAllowed signAllowed' : Bool} {cs : List Char}
    (hends : Ends signAllowed signAllowed' (word cs).rest tail)
    (hw : ∀ c ∈ w, isWordChar c = true) :
    (word cs).reading = .ok .label ∧ word (w ++ ':' :: tail) = ⟨.ok .label, w, [':'], tail⟩ ∨
    (word cs).reading = .ok (.ofName (cs.takeWhile isWordChar)) ∧
      word (w ++ tail) = .token (.ofName w) w tail := by
  obtain ⟨rest, -, hcloses, hword⟩ | hword := word_cases cs
  · rw [hword] at hends ⊢
    exact .inl ⟨rfl, word_eq_label hw (hends.label hcloses)⟩
  · have hname := endsLabel_of_word hword
    rw [hword] at hends ⊢
    exact .inr ⟨rfl, word_eq_name hw (hends.word (stops_dropWhile _ _)) (hends.name hname)⟩

theorem text_word (cs : List Char) : (word cs).text = cs.takeWhile isWordChar := by
  obtain ⟨rest, -, -, hword⟩ | hword := word_cases cs
  · rw [hword]
  · rw [hword]
    rfl

/-- A name or a label is read from its text again. -/
theorem scan_again_of_isWordStart {signAllowed signAllowed' : Bool} {c : Char} {v : List Char}
    {kind : TokenKind} (hc : isWordStart c = true)
    (h : (scan signAllowed c v).reading = .ok kind) (hw : (scan signAllowed c v).text = c :: w)
    (hends : Ends signAllowed signAllowed' (scan signAllowed c v).rest tail) :
    scan signAllowed' c (w ++ kind.colon ++ tail) = ⟨.ok kind, c :: w, kind.colon, tail⟩ := by
  rw [scan_of_isWordStart hc] at h hw hends
  rw [scan_of_isWordStart hc]
  have htext : (c :: v).takeWhile isWordChar = c :: w := (text_word _).symm.trans hw
  have hrun : ∀ d ∈ c :: w, isWordChar d = true := by
    rw [← htext]
    exact fun d hd => mem_takeWhile hd
  obtain ⟨hread, hword⟩ | ⟨hread, hword⟩ := word_again hends hrun
  · obtain rfl := Except.ok.inj (h.symm.trans hread)
    rw [TokenKind.colon, List.append_assoc]
    exact hword
  · rw [htext] at hread
    obtain rfl := Except.ok.inj (h.symm.trans hread)
    rw [TokenKind.colon_ofName, List.append_nil]
    exact hword

theorem operator_ok {c : Char} {v : List Char} {kind : TokenKind}
    (h : (operator c v).reading = .ok kind) :
    ∃ op : Operator, kind = .operator op ∧
      operator c v = .token (.operator op) op.glyphs (operator c v).rest := by
  unfold operator at h ⊢
  split at h
  next op after _ => exact ⟨op, (Except.ok.inj h).symm, rfl⟩
  next => cases h

theorem quoted_ok {quote : Char} {v : List Char} {kind : TokenKind}
    (h : (Quoted.scan quote v).reading = .ok kind) :
    ∃ b, Quoted.body? quote v = some b ∧ kind = .string (String.ofList b.contents) ∧
      (Quoted.scan quote v).text = quote :: b.text := by
  unfold Quoted.scan at h ⊢
  cases hb : Quoted.body? quote v with
  | some b =>
    rw [hb] at h
    exact ⟨b, rfl, (Except.ok.inj h).symm, rfl⟩
  | none =>
    rw [hb] at h
    cases h

theorem register_ok {v : List Char} {kind : TokenKind} (h : (register v).reading = .ok kind) :
    registerKind? (v.takeWhile isWordChar) = some kind ∧
      (register v).text = '$' :: v.takeWhile isWordChar ∧
      (register v).rest = v.dropWhile isWordChar := by
  unfold register at h ⊢
  dsimp only at h ⊢
  split at h
  next kind' hkind =>
    obtain rfl := Except.ok.inj h
    rw [hkind]
    exact ⟨rfl, rfl, rfl⟩
  next => cases h

theorem flag_ok {v : List Char} {kind : TokenKind} (h : (flag v).reading = .ok kind) :
    ∃ f, FlagWord.ofSpelling? (String.ofList (':' :: v.takeWhile isWordChar)) = some f ∧
      kind = .flag f ∧ (flag v).text = ':' :: v.takeWhile isWordChar ∧
      (flag v).rest = v.dropWhile isWordChar := by
  unfold flag at h ⊢
  dsimp only at h ⊢
  split at h
  next f hf =>
    rw [hf]
    exact ⟨f, rfl, (Except.ok.inj h).symm, rfl, rfl⟩
  next => cases h

theorem number_again {signAllowed signAllowed' : Bool} {c : Char} {v : List Char}
    {kind : TokenKind} (hc : isWordStart c = false)
    (hstarts : Numeral.starts signAllowed (c :: v) = true)
    (h : (Numeral.scan (c :: v)).reading = .ok kind) (hw : (Numeral.scan (c :: v)).text = c :: w)
    (hends : Ends signAllowed signAllowed' (Numeral.scan (c :: v)).rest tail) :
    scan signAllowed' c (w ++ tail) = .token kind (c :: w) tail := by
  have hgap := gap_scan_of_not_isWordStart hc signAllowed v
  rw [scan_number hstarts] at hgap
  have hagain := Numeral.starts_again hstarts hw tail
  have hnumber := Numeral.scan_again (c :: v) hends
  rw [hw, List.cons_append] at hnumber
  rw [scan_number (Numeral.starts_mono hends.allowed hagain), hnumber]
  simp only [token, h, hw, hgap]

/-- A word stays at the front of a text, whatever is put behind it. -/
theorem any_takeWhile {v : List Char} (h : v.head?.any isWordStart = true) (tail : List Char) :
    (v.takeWhile isWordChar ++ tail).head?.any isWordStart = true := by
  cases v with
  | nil => cases h
  | cons d v =>
    rw [List.takeWhile_cons_of_pos (isWordChar_of_isWordStart h)]
    exact h

theorem operator_of_scan {signAllowed signAllowed' : Bool} {c : Char} {v : List Char}
    {kind : TokenKind} (hscan : scan signAllowed c v = operator c v)
    (h : (operator c v).reading = .ok kind) (hw : (operator c v).text = c :: w)
    (hends : Ends signAllowed signAllowed' (operator c v).rest tail) :
    scan signAllowed' c (w ++ tail) = .token kind (c :: w) tail := by
  obtain ⟨op, rfl, hop⟩ := operator_ok h
  have hglyphs : op.glyphs = c :: w := by
    rw [hop] at hw
    exact hw
  have hv : w ++ (operator c v).rest = v := by
    have hwhole := whole_operator c v
    rw [whole, hw, congrArg gap hop, token, List.append_nil] at hwhole
    exact (List.cons.inj hwhole).2
  refine hends.operator hglyphs ?_
  rw [hv, ← hglyphs, hscan]
  exact hop

/-- What is read as a token that begins with no word is read from its text again. -/
theorem scan_again_of_not_isWordStart {signAllowed signAllowed' : Bool} {c : Char} {v : List Char}
    {kind : TokenKind} (hc : isWordStart c = false) (h : (scan signAllowed c v).reading = .ok kind)
    (hw : (scan signAllowed c v).text = c :: w)
    (hends : Ends signAllowed signAllowed' (scan signAllowed c v).rest tail) :
    scan signAllowed' c (w ++ tail) = .token kind (c :: w) tail := by
  have hrun : ∀ d ∈ v.takeWhile isWordChar, isWordChar d = true := fun d hd => mem_takeWhile hd
  have hdrop := stops_dropWhile isWordChar v
  have hscanned := scanned signAllowed c v
  generalize hscan : scan signAllowed c v = p at h hw hends hscanned
  cases hscanned with
  | newline =>
    cases hw
    cases h
    rfl
  | quoted hquote =>
    obtain ⟨b, hb, rfl, htext⟩ := quoted_ok h
    obtain rfl : b.text = w := (List.cons.inj (htext.symm.trans hw)).2
    rw [scan_quoted signAllowed' hquote]
    exact quoted_again (by rintro rfl; simp at hquote) hb tail
  | register =>
    obtain ⟨hkind, htext, hrest⟩ := register_ok h
    rw [hrest] at hends
    obtain rfl := (List.cons.inj (htext.symm.trans hw)).2
    exact register_again hkind hrun (hends.word hdrop)
  | flag hhead =>
    obtain ⟨f, hf, rfl, htext, hrest⟩ := flag_ok h
    rw [hrest] at hends
    obtain rfl := (List.cons.inj (htext.symm.trans hw)).2
    rw [scan_flag (any_takeWhile hhead tail)]
    exact flag_again hf hrun (hends.word hdrop)
  | directive hhead hp =>
    obtain ⟨d, hspelling, rfl⟩ := Option.map_eq_some_iff.1 hp
    obtain rfl : v.takeWhile isWordChar = w := (List.cons.inj hw).2
    obtain rfl := Except.ok.inj h
    rw [scan_directive (any_takeWhile hhead tail),
      directive?_again hspelling hrun (hends.word hdrop)]
    rfl
  | word hstart =>
    rw [hc] at hstart
    cases hstart
  | number hstarts => exact number_again hc hstarts h hw hends
  | operator => exact operator_of_scan hscan h hw hends

/-- The text of a token is read as that token, in front of what ends it as well as what stood
there did. -/
theorem scan_again {signAllowed : Bool} {c : Char} {v : List Char} {kind : TokenKind}
    (h : (scan signAllowed c v).reading = .ok kind) : ∃ w, (scan signAllowed c v).text = c :: w ∧
      ∀ signAllowed' tail, Ends signAllowed signAllowed' (scan signAllowed c v).rest tail →
        scan signAllowed' c (w ++ kind.colon ++ tail) = ⟨.ok kind, c :: w, kind.colon, tail⟩ := by
  obtain ⟨w, hw⟩ : ∃ w, (scan signAllowed c v).text = c :: w := by
    have hwhole := whole_scan signAllowed c v
    obtain ⟨d, w, hw⟩ := List.exists_cons_of_ne_nil (text_scan_ne_nil signAllowed c v)
    rw [whole, hw] at hwhole
    obtain ⟨rfl, -⟩ := List.cons.inj hwhole
    exact ⟨w, hw⟩
  refine ⟨w, hw, fun signAllowed' tail hends => ?_⟩
  cases hc : isWordStart c with
  | true => exact scan_again_of_isWordStart hc h hw hends
  | false =>
    have hcolon : kind.colon = [] := by
      have hgap := gap_scan signAllowed c v
      rw [gap_scan_of_not_isWordStart hc, h] at hgap
      exact hgap.symm
    rw [hcolon, List.append_nil]
    exact scan_again_of_not_isWordStart hc h hw hends

/-- A token does not begin with a blank or a comment. -/
theorem not_trivia_of_scan {signAllowed : Bool} {c : Char} {v : List Char} {kind : TokenKind}
    (h : (scan signAllowed c v).reading = .ok kind) : isBlank c = false ∧ c ≠ '#' := by
  refine ⟨Bool.eq_false_iff.2 fun hblank => ?_, ?_⟩
  · simp only [isBlank, Bool.or_eq_true, beq_iff_eq, or_assoc] at hblank
    obtain rfl | rfl | rfl | rfl := hblank <;> cases signAllowed <;> cases h
  · rintro rfl
    cases signAllowed <;> cases h

end Piece

/-! Tokens behind blanks -/

theorem splitTrivia_blanks {blanks : List Char} (h : ∀ b ∈ blanks, isBlank b = true) {c : Char}
    (hc : isBlank c = false) (hcomment : c ≠ '#') (v : List Char) :
    splitTrivia (blanks ++ c :: v) = (blanks, c :: v) := by
  have hstops : Stops isBlank (c :: v) := by
    rintro _ ⟨⟩
    exact hc
  unfold splitTrivia
  rw [hstops.takeWhile h, hstops.dropWhile h]
  simp [hcomment]

/-- Blanks and a comment are split off again in front of what begins a token. -/
theorem IsTrivia.split {trivia : List Char} {c : Char} {v : List Char}
    (h : IsTrivia trivia (c :: v)) (hc : isBlank c = false) (hcomment : c ≠ '#') :
    splitTrivia (trivia ++ c :: v) = (trivia, c :: v) := by
  obtain ⟨blanks, comment, rfl, hblanks, rfl | ⟨inside, rfl, hinside, hbehind⟩⟩ := h
  · rw [List.append_nil]
    exact splitTrivia_blanks hblanks hc hcomment v
  · obtain rfl : c = '\n' := by simpa using hbehind
    have hblank : Stops isBlank ('#' :: (inside ++ '\n' :: v)) := by
      rintro _ ⟨⟩
      rfl
    have hstops : Stops (· != '\n') ('\n' :: v) := by
      rintro _ ⟨⟩
      rfl
    have hline : ∀ a ∈ inside, (a != '\n') = true := by
      intro a ha
      rw [bne_iff_ne]
      rintro rfl
      exact hinside ha
    unfold splitTrivia
    rw [List.append_assoc, List.cons_append, hblank.takeWhile hblanks, hblank.dropWhile hblanks]
    simp only [hstops.takeWhile hline, hstops.dropWhile hline]

namespace Lexer

/-- What is read behind blanks and comments is the next token. -/
theorem next_of_split {l : Lexer} {trivia : List Char} {c : Char} {v : List Char} {p : Piece}
    {kind : TokenKind} (hsplit : splitTrivia l.rest = (trivia, c :: v))
    (hscan : Piece.scan (l.sign.permits !trivia.isEmpty) c v = p) (hp : p.reading = .ok kind) :
    ∃ t l', l.next = (.token t, l') ∧ t.kind = kind ∧ t.lexeme = String.ofList p.text ∧
      l'.rest = p.rest ∧ l'.sign = SignRule.after kind := by
  subst hscan
  rw [next_eq, hsplit]
  unfold take
  dsimp only
  rw [hp]
  exact ⟨_, _, rfl, rfl, rfl, rfl, rfl⟩

/-- What is read behind blanks is the next token. -/
theorem next_of_scan {l : Lexer} {blanks : List Char} {c : Char} {v : List Char} {p : Piece}
    {kind : TokenKind} (hrest : l.rest = blanks ++ c :: v)
    (hblanks : ∀ b ∈ blanks, isBlank b = true)
    (hscan : Piece.scan (l.sign.permits !blanks.isEmpty) c v = p) (hp : p.reading = .ok kind) :
    ∃ t l', l.next = (.token t, l') ∧ t.kind = kind ∧ t.lexeme = String.ofList p.text ∧
      l'.rest = p.rest ∧ l'.sign = SignRule.after kind := by
  obtain ⟨hc, hcomment⟩ := Piece.not_trivia_of_scan (hscan ▸ hp)
  refine next_of_split ?_ hscan hp
  rw [hrest]
  exact splitTrivia_blanks hblanks hc hcomment v

end Lexer
end PirFrontend
