import PirFrontend.Token.Split

/-!
No piece reaches across a newline. What is scanned in front of a newline is scanned alike
whatever stands behind it, so the steps of a text are the steps of its lines. A carriage return
ends every piece but a string, too.
-/
namespace PirFrontend

section

variable {p : Char → Bool} {e : Char}

theorem takeWhile_stop (hp : p e = false) (v b : List Char) :
    (v ++ e :: b).takeWhile p = v.takeWhile p := by
  induction v with
  | nil => simp [hp]
  | cons c v ih =>
    simp only [List.cons_append, List.takeWhile_cons, ih]

theorem dropWhile_stop (hp : p e = false) (v b : List Char) :
    (v ++ e :: b).dropWhile p = v.dropWhile p ++ e :: b := by
  induction v with
  | nil => simp [hp]
  | cons c v ih =>
    simp only [List.cons_append, List.dropWhile_cons]
    split
    · exact ih
    · rfl

theorem mem_takeWhile {v : List Char} {c : Char} (h : c ∈ v.takeWhile p) : p c = true :=
  List.all_eq_true.1 List.all_takeWhile c h

theorem head?_stop (hp : p e = false) (v b : List Char) :
    (v ++ e :: b).head?.any p = v.head?.any p := by
  cases v <;> simp [hp]

theorem isPrefixOf_stop {g : List Char} (hg : e ∉ g) (v b : List Char) :
    g.isPrefixOf (v ++ e :: b) = g.isPrefixOf v := by
  induction g generalizing v with
  | nil => simp
  | cons c g ih =>
    have hc : c ≠ e := fun h => hg (h ▸ List.mem_cons_self)
    cases v with
    | nil => simp [List.isPrefixOf, hc]
    | cons d v => simp [List.isPrefixOf, ih (fun h => hg (List.mem_cons_of_mem _ h)) v]

end

/-! The characters at the end of a line -/

/-- The newline, and the carriage return that may stand in front of it. -/
def isLineEnd (c : Char) : Bool := c == '\n' || c == '\r'

variable {e : Char}

theorem isLineEnd_cases (he : isLineEnd e = true) : e = '\n' ∨ e = '\r' := by
  simpa [isLineEnd] using he

theorem isWordChar_lineEnd (he : isLineEnd e = true) : isWordChar e = false := by
  obtain rfl | rfl := isLineEnd_cases he <;> decide

theorem isWordStart_lineEnd (he : isLineEnd e = true) : isWordStart e = false := by
  obtain rfl | rfl := isLineEnd_cases he <;> decide

theorem isDigit_lineEnd (he : isLineEnd e = true) : e.isDigit = false := by
  obtain rfl | rfl := isLineEnd_cases he <;> decide

theorem ne_of_lineEnd (he : isLineEnd e = true) {c : Char} (hc : isLineEnd c = false) : e ≠ c := by
  intro rfl
  rw [he] at hc
  cases hc

/-! Operators -/

namespace Operator

theorem lineEnd_notMem_glyphs (he : isLineEnd e = true) (op : Operator) : e ∉ op.glyphs := by
  obtain rfl | rfl := isLineEnd_cases he <;> cases op <;> decide

/-- A character that is in no operator ends the text from which operators are read. -/
theorem scan?_stop (he : ∀ op : Operator, e ∉ op.glyphs) (v b : List Char) : scan? (v ++ e :: b) =
    (scan? v).map fun (op, rest) => (op, rest ++ e :: b) := by
  have hfind : table.find? (fun op => op.glyphs.isPrefixOf (v ++ e :: b)) =
      table.find? fun op => op.glyphs.isPrefixOf v := by
    congr 1
    funext op
    exact isPrefixOf_stop (he op) v b
  unfold scan?
  rw [hfind, Option.map_map]
  apply Option.map_congr
  intro op hop
  have hp : op.glyphs.isPrefixOf v :=
    List.find?_some (p := fun op : Operator => op.glyphs.isPrefixOf v) hop
  have hle := (List.isPrefixOf_iff_prefix.1 hp).length_le
  simp [List.drop_append_of_le_length hle]

end Operator

/-! Quoted strings -/

namespace Quoted

/-- The body with more text behind it. -/
def Body.followed (d : Body) (tail : List Char) : Body := { d with rest := d.rest ++ tail }

/-- Text in which a string is not closed does not change what a string in front of it is. -/
theorem body?_followed {quote : Char} {tail : List Char} (hq : quote ≠ '\n')
    (htail : body? quote tail = none) (hmore : ∀ c, c ≠ quote → body? quote (c :: tail) = none)
    (v : List Char) : body? quote (v ++ tail) = (body? quote v).map (·.followed tail) := by
  fun_induction body? quote v with
  | case1 => exact htail
  | case2 => cases tail <;> simp [body?, hq, Body.followed]
  | case3 c hc => exact hmore c hc
  | case4 d rest => simp [body?]
  | case5 d rest h => simp [body?, Body.followed, hq]
  | case6 c rest hc hcq hesc => simp [body?, hcq, hesc]
  | case7 c d rest hc hcq hesc hd ih =>
    simp only [List.cons_append, body?, hc, hcq, hesc, hd, if_true, if_false, ih]
    simp [Function.comp_def, Body.push, Body.followed]
  | case8 c d rest hc hcq hesc ih =>
    rw [List.cons_append] at ih
    simp only [List.cons_append, body?, hc, hcq, hesc, if_false, ih]
    simp [Function.comp_def, Body.push, Body.followed]

theorem body?_newline {quote : Char} (hq : quote ≠ '\n') (v b : List Char) :
    body? quote (v ++ '\n' :: b) = (body? quote v).map (·.followed ('\n' :: b)) := by
  have hnil : body? quote ('\n' :: b) = none := by
    cases b <;> simp [body?, hq.symm]
  refine body?_followed hq hnil (fun c hc => ?_) v
  simp only [body?, hc, if_false, hnil]
  split <;> simp

/-- A carriage return at the end of the text closes no string, be it escaped or not. -/
theorem body?_return {quote : Char} (hq : isLineEnd quote = false) (v : List Char) :
    body? quote (v ++ ['\r']) = (body? quote v).map (·.followed ['\r']) := by
  have hnewline : quote ≠ '\n' := (ne_of_lineEnd (by decide) hq).symm
  have hreturn : '\r' ≠ quote := ne_of_lineEnd (by decide) hq
  have hnil : body? quote ['\r'] = none := by simp [body?, hreturn]
  refine body?_followed hnewline hnil (fun c hc => ?_) v
  simp only [body?, hc, hreturn, if_false]
  split <;> simp

end Quoted

/-! Pieces -/

/-- The piece with more text behind it. -/
def Piece.followed (q : Piece) (tail : List Char) : Piece := { q with rest := q.rest ++ tail }

namespace Numeral

theorem sign_lineEnd (he : isLineEnd e = true) (v b : List Char) :
    sign (v ++ e :: b) = ((sign v).1, (sign v).2 ++ e :: b) := by
  cases v with
  | nil => simp [sign, ne_of_lineEnd he (c := '-') (by decide)]
  | cons c v =>
    by_cases hc : c = '-'
    · subst hc
      rfl
    · simp [sign, hc]

theorem fraction_lineEnd (he : isLineEnd e = true) (v b : List Char) :
    fraction (v ++ e :: b) = ((fraction v).1, (fraction v).2 ++ e :: b) := by
  have hn := isDigit_lineEnd he
  match v with
  | [] => simp [fraction, ne_of_lineEnd he (c := '.') (by decide)]
  | [c] =>
    by_cases hc : c = '.'
    · subst hc
      simp [fraction, hn]
    · simp [fraction, hc]
  | c :: d :: v =>
    by_cases hc : c = '.'
    · subst hc
      simp only [List.cons_append, fraction, takeWhile_stop hn, dropWhile_stop hn]
      split <;> rfl
    · simp [fraction, hc]

theorem exponent_lineEnd (he : isLineEnd e = true) (v b : List Char) :
    exponent (v ++ e :: b) = ((exponent v).1, (exponent v).2 ++ e :: b) := by
  have hn := isDigit_lineEnd he
  match v with
  | [] =>
    have hmark : isExponentMark e = false := by
      obtain rfl | rfl := isLineEnd_cases he <;> decide
    cases b <;> simp [exponent, hmark]
  | [c] =>
    have hplus := ne_of_lineEnd he (c := '+') (by decide)
    have hminus := ne_of_lineEnd he (c := '-') (by decide)
    simp [exponent, hn, hplus, hminus]
  | c :: d :: v =>
    simp only [List.cons_append, exponent, takeWhile_stop hn, dropWhile_stop hn, head?_stop hn]
    split
    · rfl
    · split <;> rfl

theorem radix?_lineEnd (he : isLineEnd e = true) (v b : List Char) : radix? (v ++ e :: b) =
    (radix? v).map fun (base, x, rest) => (base, x, rest ++ e :: b) := by
  match v with
  | [] => simp [radix?, ne_of_lineEnd he (c := '0') (by decide)]
  | [c] =>
    by_cases hc : c = '0'
    · subst hc
      have hbase : base? e = none := by
        obtain rfl | rfl := isLineEnd_cases he <;> decide
      simp [radix?, hbase]
    · simp [radix?, hc]
  | c :: d :: v =>
    by_cases hc : c = '0'
    · subst hc
      simp [radix?, Function.comp_def]
    · simp [radix?, hc]

theorem piece_followed (kind : Option TokenKind) (text rest tail : List Char) :
    piece kind text (rest ++ tail) = (piece kind text rest).followed tail := by
  cases kind <;> rfl

theorem scan_lineEnd (he : isLineEnd e = true) (v b : List Char) :
    scan (v ++ e :: b) = (scan v).followed (e :: b) := by
  have hn := isDigit_lineEnd he
  have hw := isWordChar_lineEnd he
  unfold scan
  simp only [sign_lineEnd he, radix?_lineEnd he]
  cases radix? (sign v).2 with
  | some found =>
    obtain ⟨base, x, rest⟩ := found
    simp only [Option.map_some, takeWhile_stop hw, dropWhile_stop hw]
    exact piece_followed _ _ _ _
  | none =>
    simp only [Option.map_none, decimals, takeWhile_stop hn, dropWhile_stop hn,
      fraction_lineEnd he, exponent_lineEnd he, piece_followed]
    exact (apply_ite (Piece.followed · (e :: b)) _ _ _).symm

theorem starts_lineEnd (he : isLineEnd e = true) (signAllowed : Bool) (c : Char)
    (v b : List Char) :
    starts signAllowed (c :: v ++ e :: b) = starts signAllowed (c :: v) := by
  simp only [List.cons_append, starts, head?_stop (isDigit_lineEnd he)]

end Numeral

namespace Piece

theorem word_lineEnd (he : isLineEnd e = true) (v b : List Char) :
    word (v ++ e :: b) = (word v).followed (e :: b) := by
  have hw := isWordChar_lineEnd he
  have hcolon := ne_of_lineEnd he (c := ':') (by decide)
  unfold word
  simp only [takeWhile_stop hw, dropWhile_stop hw]
  cases v.dropWhile isWordChar with
  | nil => simp [hcolon, token, followed]
  | cons c rest =>
    by_cases hc : c = ':'
    · subst hc
      have hcloses : closesLabel (rest ++ e :: b) = closesLabel rest := by
        cases rest with
        | nil => simp [closesLabel, isWordStart_lineEnd he, hcolon]
        | cons => rfl
      simp only [List.cons_append, hcloses]
      split <;> rfl
    · simp [hc, token, followed]

theorem directive?_lineEnd (he : isLineEnd e = true) (v b : List Char) :
    directive? (v ++ e :: b) = (directive? v).map (·.followed (e :: b)) := by
  unfold directive?
  simp only [takeWhile_stop (isWordChar_lineEnd he), dropWhile_stop (isWordChar_lineEnd he),
    Option.map_map]
  rfl

theorem flag_lineEnd (he : isLineEnd e = true) (v b : List Char) :
    flag (v ++ e :: b) = (flag v).followed (e :: b) := by
  unfold flag
  simp only [takeWhile_stop (isWordChar_lineEnd he), dropWhile_stop (isWordChar_lineEnd he)]
  split <;> rfl

theorem register_lineEnd (he : isLineEnd e = true) (v b : List Char) :
    register (v ++ e :: b) = (register v).followed (e :: b) := by
  unfold register
  simp only [takeWhile_stop (isWordChar_lineEnd he), dropWhile_stop (isWordChar_lineEnd he)]
  split <;> rfl

theorem operator_stop (he : ∀ op : Operator, e ∉ op.glyphs) (c : Char) (v b : List Char) :
    operator c (v ++ e :: b) = (operator c v).followed (e :: b) := by
  unfold operator
  rw [← List.cons_append, Operator.scan?_stop he]
  cases Operator.scan? (c :: v) <;> rfl

theorem quoted_newline {quote : Char} (hq : quote ≠ '\n') (v b : List Char) :
    Quoted.scan quote (v ++ '\n' :: b) = (Quoted.scan quote v).followed ('\n' :: b) := by
  unfold Quoted.scan
  rw [Quoted.body?_newline hq, takeWhile_stop (p := (· != '\n')) (by decide),
    dropWhile_stop (p := (· != '\n')) (by decide)]
  cases Quoted.body? quote v <;> rfl

/-- What is scanned in front of the end of a line does not depend on the text from there on, unless
it is a string. -/
theorem scan_lineEnd (he : isLineEnd e = true) (signAllowed : Bool) {c : Char}
    (hc : ¬(c = '"' ∨ c = '\'')) (v b : List Char) :
    scan signAllowed c (v ++ e :: b) = (scan signAllowed c v).followed (e :: b) := by
  unfold scan
  simp only [head?_stop (isWordStart_lineEnd he), Numeral.starts_lineEnd he,
    directive?_lineEnd he, flag_lineEnd he, register_lineEnd he,
    operator_stop fun op => op.lineEnd_notMem_glyphs he,
    ← List.cons_append, word_lineEnd he, Numeral.scan_lineEnd he, if_neg hc]
  split
  · rfl
  split
  · rfl
  split
  · rfl
  split
  · cases directive? v <;> rfl
  split
  · rfl
  split <;> rfl

theorem scan_quoted (signAllowed : Bool) {c : Char} (hc : c = '"' ∨ c = '\'') (v : List Char) :
    scan signAllowed c v = Quoted.scan c v := by
  have hnewline : c ≠ '\n' := by
    rintro rfl
    simp at hc
  unfold scan
  rw [if_neg hnewline, if_pos hc]

/-- No string reaches across a newline, either. -/
theorem scan_newline (signAllowed : Bool) (c : Char) (v b : List Char) :
    scan signAllowed c (v ++ '\n' :: b) = (scan signAllowed c v).followed ('\n' :: b) := by
  by_cases hc : c = '"' ∨ c = '\''
  · rw [scan_quoted signAllowed hc, scan_quoted signAllowed hc]
    exact quoted_newline (by rintro rfl; simp at hc) v b
  · exact scan_lineEnd (by decide) signAllowed hc v b

theorem registerKind?_register {cs : List Char} {kind : TokenKind}
    (h : registerKind? cs = some kind) : ∃ cls number, kind = .register cls number := by
  cases cs with
  | nil => cases h
  | cons c ds =>
    obtain ⟨cls, -, h⟩ := Option.bind_eq_some_iff.1 h
    dsimp only at h
    split at h
    · obtain ⟨number, -, h⟩ := Option.bind_eq_some_iff.1 h
      split at h
      · exact ⟨cls, number, (Option.some.inj h).symm⟩
      · cases h
    · cases h

/-- What begins a word is read as a word. -/
theorem scan_of_isWordStart {c : Char} (h : isWordStart c = true) (signAllowed : Bool)
    (v : List Char) : scan signAllowed c v = word (c :: v) := by
  have hne {d : Char} (hd : isWordStart d = false) : c ≠ d := by
    intro rfl
    rw [h] at hd
    cases hd
  unfold scan
  rw [if_neg (hne (by decide)), if_neg (not_or.2 ⟨hne (by decide), hne (by decide)⟩),
    if_neg (hne (by decide)), if_neg fun hc => hne (d := ':') (by decide) hc.1,
    if_neg fun hc => hne (d := '.') (by decide) hc.1, if_pos h]

/-- A piece that is read as neither a newline nor a label. -/
def Plain (p : Piece) : Prop := p.reading ≠ .ok .newline ∧ p.reading ≠ .ok .label

theorem operator_plain (c : Char) (v : List Char) : (operator c v).Plain := by
  unfold operator
  split <;> exact ⟨nofun, nofun⟩

theorem quoted_plain (quote : Char) (v : List Char) : (Quoted.scan quote v).Plain := by
  unfold Quoted.scan
  split <;> exact ⟨nofun, nofun⟩

theorem register_plain (v : List Char) : (register v).Plain := by
  unfold register
  dsimp only
  split
  next kind hkind =>
    obtain ⟨cls, number, rfl⟩ := registerKind?_register hkind
    exact ⟨nofun, nofun⟩
  next => exact ⟨nofun, nofun⟩

theorem flag_plain (v : List Char) : (flag v).Plain := by
  unfold flag
  dsimp only
  split <;> exact ⟨nofun, nofun⟩

theorem directive?_plain {v : List Char} {p : Piece} (h : directive? v = some p) : p.Plain := by
  obtain ⟨d, -, rfl⟩ := Option.map_eq_some_iff.1 h
  exact ⟨nofun, nofun⟩

theorem numeral_plain (v : List Char) : (Numeral.scan v).Plain := by
  constructor
  · intro h
    obtain ⟨_, h⟩ | ⟨_, h⟩ := Numeral.scan_reading h <;> cases h
  · intro h
    obtain ⟨_, h⟩ | ⟨_, h⟩ := Numeral.scan_reading h <;> cases h

/-- Newlines and labels are read in one way each. -/
theorem scan_newline_or_label {signAllowed : Bool} {c : Char} {v : List Char} {k : TokenKind}
    (h : (scan signAllowed c v).reading = .ok k) (hk : k = .newline ∨ k = .label) :
    c = '\n' ∧ k = .newline ∨ isWordStart c = true := by
  have hne {p : Piece} (hp : p.Plain) : p.reading ≠ .ok k := by
    obtain rfl | rfl := hk
    · exact hp.1
    · exact hp.2
  have hscanned := scanned signAllowed c v
  generalize scan signAllowed c v = p at h hscanned
  cases hscanned with
  | newline => exact .inl ⟨rfl, (Except.ok.inj h).symm⟩
  | quoted => exact absurd h (hne (quoted_plain c v))
  | register => exact absurd h (hne (register_plain v))
  | flag => exact absurd h (hne (flag_plain v))
  | directive _ hp => exact absurd h (hne (directive?_plain hp))
  | word hc => exact .inr hc
  | number => exact absurd h (hne (numeral_plain (c :: v)))
  | operator => exact absurd h (hne (operator_plain c v))

/-- Only a newline makes a token that ends a line. -/
theorem scan_isNewline {signAllowed : Bool} {c : Char} {v : List Char}
    (h : (scan signAllowed c v).reading = .ok .newline) : c = '\n' := by
  obtain ⟨hc, -⟩ | hc := scan_newline_or_label h (.inl rfl)
  · exact hc
  · rw [scan_of_isWordStart hc] at h
    unfold word at h
    dsimp only at h
    split at h
    · split at h
      · cases h
      · cases hk : Keyword.ofSpelling? (String.ofList ((c :: v).takeWhile isWordChar)) <;>
          rw [hk] at h <;> cases h
    · cases hk : Keyword.ofSpelling? (String.ofList ((c :: v).takeWhile isWordChar)) <;>
        rw [hk] at h <;> cases h

/-- A label is a word with a colon behind it. -/
theorem scan_label {signAllowed : Bool} {c : Char} {v : List Char}
    (h : (scan signAllowed c v).reading = .ok .label) :
    isWordStart c = true ∧ (scan signAllowed c v).text = (c :: v).takeWhile isWordChar := by
  obtain ⟨-, hk⟩ | hc := scan_newline_or_label h (.inr rfl)
  · cases hk
  · refine ⟨hc, ?_⟩
    rw [scan_of_isWordStart hc]
    unfold word
    dsimp only
    split
    · split <;> rfl
    · rfl

end Piece

end PirFrontend
