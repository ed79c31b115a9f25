import PirFrontend.Proofs.Newlines
import PirFrontend.Proofs.Operators

/-!
What may stand directly behind a token. In front of a separator the text of an operator, a string or
a number is split off again just as it was before.
-/
namespace PirFrontend

/-! Text that ends a token -/

/-- The characters that may stand directly behind a token and go on with none: the blank, the
newline, and the marks of keys and lists of operands. -/
def isSeparator (c : Char) : Bool :=
  c == ' ' || c == '\n' || c == ',' || c == ';' || c == '[' || c == ']'

/-- The text is empty or begins with a separator. -/
def Separated (tail : List Char) : Prop := ∀ c ∈ tail.head?, isSeparator c = true

/-- The text is empty or begins with another character. -/
def Stops (p : Char → Bool) (tail : List Char) : Prop := ∀ c ∈ tail.head?, p c = false

theorem isSeparator_cases {c : Char} (h : isSeparator c = true) :
    c = ' ' ∨ c = '\n' ∨ c = ',' ∨ c = ';' ∨ c = '[' ∨ c = ']' := by
  simpa [isSeparator, or_assoc] using h

theorem Separated.stops {tail : List Char} (h : Separated tail) {p : Char → Bool}
    (hp : p ' ' = false ∧ p '\n' = false ∧ p ',' = false ∧ p ';' = false ∧ p '[' = false ∧
      p ']' = false) : Stops p tail := by
  obtain ⟨hblank, hnewline, hcomma, hsemicolon, hleft, hright⟩ := hp
  intro c hc
  obtain rfl | rfl | rfl | rfl | rfl | rfl := isSeparator_cases (h c hc) <;> assumption

theorem Separated.nil : Separated [] := nofun

theorem Separated.cons {c : Char} (h : isSeparator c = true) (tail : List Char) :
    Separated (c :: tail) := by
  rintro _ ⟨⟩
  exact h

namespace Stops

variable {p : Char → Bool} {run rest tail : List Char}

theorem takeWhile (h : Stops p tail) (hrun : ∀ c ∈ run, p c = true) :
    (run ++ tail).takeWhile p = run := by
  rw [List.takeWhile_append_of_pos hrun]
  cases tail with
  | nil => simp
  | cons c tail => simp [h c rfl]

theorem dropWhile (h : Stops p tail) (hrun : ∀ c ∈ run, p c = true) :
    (run ++ tail).dropWhile p = tail := by
  rw [List.dropWhile_append_of_pos hrun]
  cases tail with
  | nil => rfl
  | cons c tail => simp [h c rfl]

theorem any_head? (h : Stops p tail) : tail.head?.any p = false := by
  cases tail with
  | nil => rfl
  | cons c tail => exact h c rfl

theorem of_any_head? (h : tail.head?.any p = false) : Stops p tail := by
  cases tail with
  | nil => nofun
  | cons c tail =>
    rintro _ ⟨⟩
    exact h

/-- Only if nothing is in front of it, it matters what is put in the place of another text. -/
theorem append (h : Stops p (run ++ rest)) (htail : Stops p rest → Stops p tail) :
    Stops p (run ++ tail) := by
  cases run with
  | nil => exact htail h
  | cons c run => exact h

end Stops

theorem stops_dropWhile (p : Char → Bool) (cs : List Char) : Stops p (cs.dropWhile p) := by
  intro c hc
  cases hd : cs.dropWhile p with
  | nil =>
    rw [hd] at hc
    cases hc
  | cons d rest =>
    have hfirst := List.head_dropWhile_not (p := p) (l := cs) (by simp [hd])
    simp only [hd, List.head_cons, List.head?_cons, Option.mem_some_iff] at hfirst hc
    rw [← hc]
    exact hfirst

/-! Operators -/

namespace Operator

/-- Separators are in no operator but those that they are alone. -/
theorem separator_glyphs (op : Operator) :
    op.glyphs.all (!isSeparator ·) = true ∨ op.glyphs.length = 1 := by
  cases op <;> decide

theorem isPrefixOf_glyphs (o op : Operator) {tail : List Char} (h : Separated tail) :
    o.glyphs.isPrefixOf (op.glyphs ++ tail) = o.glyphs.isPrefixOf op.glyphs := by
  cases tail with
  | nil => rw [List.append_nil]
  | cons e b =>
    obtain hall | hone := o.separator_glyphs
    · apply isPrefixOf_stop
      intro he
      have hnot := List.all_eq_true.1 hall e he
      rw [h e rfl] at hnot
      cases hnot
    · obtain ⟨x, hx⟩ := List.length_eq_one_iff.1 hone
      obtain ⟨y, ys, hy⟩ := List.exists_cons_of_ne_nil op.glyphs_ne_nil
      rw [hx, hy]
      rfl

theorem scan?_glyphs (op : Operator) {tail : List Char} (h : Separated tail) :
    scan? (op.glyphs ++ tail) = some (op, tail) := by
  refine scan?_eq_some_iff.2 ⟨⟨List.prefix_append _ _, fun o ho => ?_⟩, rfl⟩
  rw [← List.isPrefixOf_iff_prefix, o.isPrefixOf_glyphs op h] at ho
  exact (List.isPrefixOf_iff_prefix.1 ho).length_le

end Operator

/-! Quoted strings -/

namespace Quoted

variable {quote : Char} {rest : List Char} {b : Body}

/-- A character that stands for itself. -/
theorem body?_cons {c : Char} (hc : c ≠ '\n') (hquote : c ≠ quote)
    (hslash : ¬(quote == '"' && c == '\\') = true) (h : body? quote rest = some b) :
    body? quote (c :: rest) = some (b.push [c] [c]) := by
  cases rest with
  | nil => cases h
  | cons d rest => simp only [body?, hc, hquote, hslash, if_false, Bool.false_eq_true, h,
      Option.map_some]

/-- A pair that stands for one character. -/
theorem body?_escaped {d : Char} (hd : d ≠ '\n') (h : body? '"' rest = some b) :
    body? '"' ('\\' :: d :: rest) = some (b.push (unescape d) ['\\', d]) := by
  simp [body?, hd, h]

theorem body?_quote (hquote : quote ≠ '\n') (tail : List Char) :
    body? quote (quote :: tail) = some ⟨[], [quote], tail⟩ := by
  cases tail <;> simp [body?, hquote]

/-- The text of a string is read again, whatever is behind its closing quote. -/
theorem body?_again (hquote : quote ≠ '\n') (cs tail : List Char) :
    ∀ b, body? quote cs = some b → body? quote (b.text ++ tail) = some { b with rest := tail } := by
  fun_induction body? quote cs with
  | case1 | case3 | case4 | case6 => simp
  | case2 =>
    rintro _ ⟨⟩
    exact body?_quote hquote tail
  | case5 =>
    rintro _ ⟨⟩
    exact body?_quote hquote tail
  | case7 c d rest hc hcq hesc hd ih =>
    intro b hb
    obtain ⟨e, he, rfl⟩ := Option.map_eq_some_iff.1 hb
    simp only [Body.push, List.cons_append, List.nil_append, body?, hc, hcq, hesc, hd, if_true,
      if_false, ih e he, Option.map_some]
  | case8 c d rest hc hcq hesc ih =>
    intro b hb
    obtain ⟨e, he, rfl⟩ := Option.map_eq_some_iff.1 hb
    exact body?_cons hc hcq hesc (ih e he)

end Quoted

/-! Numbers -/

namespace Numeral

theorem sign_of_stops {cs : List Char} (h : Stops (· == '-') cs) : sign cs = ([], cs) := by
  unfold sign
  split
  next rest => exact absurd (h '-' rfl) (by decide)
  next => rfl

/-- Two characters decide whether a text begins with a base. -/
theorem radix?_again {u rest tail : List Char} (h : radix? (u ++ rest) = none)
    (htail : Separated tail) : radix? (u ++ tail) = none := by
  match u with
  | [] =>
    cases tail with
    | nil => rfl
    | cons c tail =>
      obtain rfl | rfl | rfl | rfl | rfl | rfl := isSeparator_cases (htail c rfl) <;> rfl
  | [c] =>
    by_cases hc : c = '0'
    · cases tail with
      | nil => simp [radix?]
      | cons e tail =>
        subst hc
        obtain rfl | rfl | rfl | rfl | rfl | rfl := isSeparator_cases (htail e rfl) <;> rfl
    · simp [radix?, hc]
  | c :: d :: u =>
    by_cases hc : c = '0'
    · subst hc
      simpa [radix?] using h
    · simp [radix?, hc]

/-- A fraction begins with its point. -/
theorem fraction_cases (cs : List Char) : (fraction cs).1 = [] ∨
    ∃ d ds, (fraction cs).1 = '.' :: d :: ds ∧ d.isDigit = true ∧ ∀ c ∈ ds, c.isDigit = true := by
  unfold fraction
  split
  · split
    next d rest hd => exact .inr ⟨d, _, rfl, hd, fun c hc => mem_takeWhile hc⟩
    next => exact .inl rfl
  · exact .inl rfl

theorem fraction_of_stops {tail : List Char} (h : Stops (· == '.') tail) :
    fraction tail = ([], tail) := by
  unfold fraction
  split
  next => exact absurd (h '.' rfl) (by decide)
  next => rfl

theorem stops_fraction {cs : List Char} (h : (fraction cs).1 ≠ []) :
    Stops Char.isDigit (fraction cs).2 := by
  unfold fraction at h ⊢
  split at h
  · split at h
    next d rest hd =>
      rw [if_pos hd]
      exact stops_dropWhile _ rest
    next => exact absurd rfl h
  · exact absurd rfl h

/-- An exponent begins with its mark. -/
theorem exponent_cases (cs : List Char) : (exponent cs).1 = [] ∨
    ∃ e s ds, (exponent cs).1 = e :: s :: ds ∧ isExponentMark e = true ∧
      (∀ c ∈ ds, c.isDigit = true) ∧
      (s.isDigit = true ∨ (s == '+' || s == '-') = true ∧ ds.head?.any Char.isDigit = true) := by
  unfold exponent
  split
  next e s rest =>
    have hds : ∀ c ∈ rest.takeWhile Char.isDigit, c.isDigit = true := fun c hc => mem_takeWhile hc
    split
    next h =>
      obtain ⟨he, hs⟩ := Bool.and_eq_true_iff.1 h
      exact .inr ⟨e, s, _, rfl, he, hds, .inl hs⟩
    split
    next h =>
      obtain ⟨h, hhead⟩ := Bool.and_eq_true_iff.1 h
      obtain ⟨he, hs⟩ := Bool.and_eq_true_iff.1 h
      refine .inr ⟨e, s, _, rfl, he, hds, .inr ⟨hs, ?_⟩⟩
      cases rest with
      | nil => cases hhead
      | cons c rest =>
        have hc : c.isDigit = true := hhead
        rw [List.takeWhile_cons_of_pos hc]
        exact hc
    next => exact .inl rfl
  next => exact .inl rfl

theorem exponent_of_stops {tail : List Char} (h : Stops isExponentMark tail) :
    exponent tail = ([], tail) := by
  unfold exponent
  split
  next e s rest =>
    have he : isExponentMark e = false := h e rfl
    simp [he]
  next => rfl

theorem stops_exponent {cs : List Char} (h : (exponent cs).1 ≠ []) :
    Stops Char.isDigit (exponent cs).2 := by
  unfold exponent at h ⊢
  split at h
  next e s rest =>
    split at h
    next hmark =>
      rw [if_pos hmark]
      exact stops_dropWhile _ rest
    next hmark =>
      rw [if_neg hmark]
      split at h
      next hsigned =>
        rw [if_pos hsigned]
        exact stops_dropWhile _ rest
      next => exact absurd rfl h
  next => exact absurd rfl h

/-- What the parts of a decimal literal denote. -/
def decimalKind? (minus whole point scale : List Char) : Option TokenKind :=
  if point.isEmpty && scale.isEmpty then
    ((Text.value? 10 whole).bind (int? !minus.isEmpty)).map .int
  else some (.num (num (!minus.isEmpty) whole point scale))

variable {cs minus body : List Char}

theorem scan_decimal {whole point scale behindWhole behindPoint rest : List Char}
    (hsign : sign cs = (minus, body)) (hradix : radix? body = none)
    (hwhole : decimals body = (whole, behindWhole))
    (hpoint : fraction behindWhole = (point, behindPoint))
    (hscale : exponent behindPoint = (scale, rest)) :
    scan cs =
      piece (decimalKind? minus whole point scale) (minus ++ whole ++ point ++ scale) rest := by
  simp only [scan, hsign, hradix, hwhole, hpoint, hscale, decimalKind?]
  split <;> rfl

/-- What the bits behind a base letter denote. -/
def basedKind? (minus : List Char) (base : Nat) (run : List Char) : Option TokenKind :=
  ((Text.value? base run).bind (bits? !minus.isEmpty)).map .int

theorem scan_based {base : Nat} {x : Char} {rest : List Char} (hsign : sign cs = (minus, body))
    (hradix : radix? body = some (base, x, rest)) :
    scan cs = piece (basedKind? minus base (rest.takeWhile isWordChar))
      (minus ++ '0' :: x :: rest.takeWhile isWordChar) (rest.dropWhile isWordChar) := by
  simp only [scan, hsign, hradix]
  rfl

theorem piece_again (kind : Option TokenKind) (text rest tail : List Char) :
    { piece kind text rest with rest := tail } = piece kind text tail := by
  cases kind <;> rfl

/-- A number goes on behind its sign with the digit that stands there. -/
theorem text_behind_sign {d : Char} {u : List Char} (hsign : sign cs = (minus, d :: u))
    (hd : d.isDigit = true) : ∃ w, (scan cs).text = minus ++ d :: w := by
  cases hradix : radix? (d :: u) with
  | some found =>
    obtain ⟨base, x, rest⟩ := found
    obtain ⟨rfl, -⟩ := List.cons.inj (radix?_split _ _ _ _ hradix)
    rw [scan_based hsign hradix, piece_text]
    exact ⟨_, rfl⟩
  | none =>
    rw [scan_decimal hsign hradix rfl rfl rfl, piece_text]
    simp only [List.takeWhile_cons_of_pos hd, List.append_assoc, List.cons_append]
    exact ⟨_, rfl⟩

theorem starts_mono {signAllowed signAllowed' : Bool} (hallowed : signAllowed = true →
    signAllowed' = true) {v : List Char} (h : starts signAllowed v = true) :
    starts signAllowed' v = true := by
  cases v with
  | nil => cases h
  | cons c v =>
    simp only [starts, Bool.or_eq_true, Bool.and_eq_true] at h ⊢
    exact h.imp_right fun h => ⟨⟨hallowed h.1.1, h.1.2⟩, h.2⟩

/-- The text of a number begins a number, whatever is behind it. -/
theorem starts_again {signAllowed : Bool} {c : Char} {v w : List Char}
    (h : starts signAllowed (c :: v) = true) (htext : (scan (c :: v)).text = c :: w)
    (tail : List Char) : starts signAllowed (c :: (w ++ tail)) = true := by
  by_cases hdigit : c.isDigit = true
  · simp only [starts, hdigit, Bool.true_or]
  · simp only [starts, hdigit, Bool.false_or, Bool.and_eq_true, beq_iff_eq] at h ⊢
    obtain ⟨⟨hallowed, rfl⟩, hhead⟩ := h
    refine ⟨⟨hallowed, rfl⟩, ?_⟩
    cases v with
    | nil => cases hhead
    | cons d u =>
      obtain ⟨x, hx⟩ : ∃ x, (scan ('-' :: d :: u)).text = ['-'] ++ d :: x :=
        text_behind_sign rfl hhead
      rw [htext] at hx
      obtain rfl := (List.cons.inj hx).2
      exact hhead

end Numeral

/-! Texts behind a token -/

/-- Whether a text in front of which a word stands makes that word a label. -/
def endsLabel : List Char → Bool
  | ':' :: rest => closesLabel rest
  | _ => false

theorem Separated.endsLabel {tail : List Char} (h : Separated tail) : endsLabel tail = false := by
  cases tail with
  | nil => rfl
  | cons c tail =>
    obtain rfl | rfl | rfl | rfl | rfl | rfl := isSeparator_cases (h c rfl) <;> rfl

theorem Separated.closesLabel {tail : List Char} (h : Separated tail) :
    closesLabel tail = true := by
  cases tail with
  | nil => rfl
  | cons c tail =>
    obtain rfl | rfl | rfl | rfl | rfl | rfl := isSeparator_cases (h c rfl) <;> rfl

/-- What stood behind a token and what stands there now: the one goes on with no token that the
other did not go on with. -/
structure Ends (signAllowed signAllowed' : Bool) (rest tail : List Char) : Prop where
  allowed : signAllowed = true → signAllowed' = true
  word : Stops isWordChar rest → Stops isWordChar tail
  name : endsLabel rest = false → endsLabel tail = false
  label : closesLabel rest = true → closesLabel tail = true
  digit : Stops Char.isDigit rest → Stops Char.isDigit tail
  minus : Stops (· == '-') rest → Stops (· == '-') tail
  radix? (u) : Numeral.radix? (u ++ rest) = none → Numeral.radix? (u ++ tail) = none
  fraction : (Numeral.fraction rest).1 = [] → Numeral.fraction tail = ([], tail)
  exponent : (Numeral.exponent rest).1 = [] → Numeral.exponent tail = ([], tail)
  operator {op c w} : op.glyphs = c :: w →
    Piece.scan signAllowed c (w ++ rest) = .token (.operator op) (c :: w) rest →
    Piece.scan signAllowed' c (w ++ tail) = .token (.operator op) (c :: w) tail

namespace Numeral

variable {signAllowed signAllowed' : Bool} {rest tail : List Char}

theorem sign_again {cs u : List Char} (hbody : (sign cs).2 = u ++ rest)
    (h : Ends signAllowed signAllowed' rest tail) :
    sign ((sign cs).1 ++ u ++ tail) = ((sign cs).1, u ++ tail) := by
  unfold sign at hbody ⊢
  split at hbody
  next => rfl
  next hminus =>
    have hstops : Stops (· == '-') (u ++ rest) := by
      rw [← hbody]
      intro c hc
      cases cs with
      | nil => cases hc
      | cons d cs =>
        obtain rfl := Option.some.inj hc
        exact beq_false_of_ne fun hd => hminus cs (by rw [hd])
    exact sign_of_stops (hstops.append h.minus)

theorem fraction_again {cs scale : List Char} (hbehind : (fraction cs).2 = scale ++ rest)
    (hscale : scale = (exponent (scale ++ rest)).1)
    (h : Ends signAllowed signAllowed' rest tail) :
    fraction ((fraction cs).1 ++ (scale ++ tail)) = ((fraction cs).1, scale ++ tail) := by
  obtain hnil | ⟨d, ds, hpoint, hd, hds⟩ := fraction_cases cs
  · rw [hnil, List.nil_append]
    have hcs := fraction_split cs
    rw [hnil, hbehind, List.nil_append] at hcs
    obtain hscale' | ⟨e, s, ds, hscale', he, -⟩ := exponent_cases (scale ++ rest)
    · obtain rfl : scale = [] := hscale.trans hscale'
      subst hcs
      exact h.fraction hnil
    · rw [hscale'] at hscale
      subst hscale
      apply fraction_of_stops
      rintro _ ⟨⟩
      obtain rfl | rfl : e = 'e' ∨ e = 'E' := by simpa [isExponentMark] using he
      · rfl
      · rfl
  · have hstops : Stops Char.isDigit (scale ++ tail) := by
      have hne : (fraction cs).1 ≠ [] := by simp [hpoint]
      have := stops_fraction hne
      rw [hbehind] at this
      exact this.append h.digit
    rw [hpoint]
    simp only [List.cons_append, fraction, hd, if_true, hstops.takeWhile hds, hstops.dropWhile hds]

theorem exponent_again (cs : List Char)
    (h : Ends signAllowed signAllowed' (exponent cs).2 tail) :
    exponent ((exponent cs).1 ++ tail) = ((exponent cs).1, tail) := by
  obtain hnil | ⟨e, s, ds, hscale, he, hds, hs⟩ := exponent_cases cs
  · have hcs := exponent_split cs
    rw [hnil, List.nil_append] at hcs
    rw [hnil, List.nil_append]
    rw [hcs] at h
    exact h.exponent hnil
  · have hdigit := h.digit (stops_exponent (by simp [hscale]))
    rw [hscale]
    simp only [List.cons_append, exponent, he, Bool.true_and, hdigit.takeWhile hds,
      hdigit.dropWhile hds]
    obtain hs | ⟨hs, hhead⟩ := hs
    · rw [if_pos hs]
    · have hnone : (ds ++ tail).head?.any Char.isDigit = true := by
        cases ds with
        | nil => cases hhead
        | cons => exact hhead
      rw [hs, hnone, if_pos (Bool.and_self true), ite_self]

theorem scan_again_based {cs r : List Char} {base : Nat} {x : Char}
    (hradix : radix? (sign cs).2 = some (base, x, r))
    (h : Ends signAllowed signAllowed' (scan cs).rest tail) :
    scan ((scan cs).text ++ tail) = { scan cs with rest := tail } := by
  have hbody := radix?_split _ _ _ _ hradix
  have hscan := scan_based rfl hradix
  rw [hscan, piece_rest] at h
  have hword : Stops isWordChar tail := h.word (stops_dropWhile _ r)
  have hrun : ∀ c ∈ r.takeWhile isWordChar, isWordChar c = true := fun c hc => mem_takeWhile hc
  have hparts : (sign cs).2 =
      '0' :: x :: r.takeWhile isWordChar ++ r.dropWhile isWordChar := by
    rw [hbody, List.cons_append, List.cons_append, List.takeWhile_append_dropWhile]
  have hsign := sign_again hparts h
  have hradix' : radix? ('0' :: x :: r.takeWhile isWordChar ++ tail) =
      some (base, x, r.takeWhile isWordChar ++ tail) := by
    rw [hbody] at hradix
    obtain ⟨b, hb, heq⟩ := Option.map_eq_some_iff.1 hradix
    obtain rfl := (Prod.mk.inj heq).1
    exact Option.map_eq_some_iff.2 ⟨b, hb, rfl⟩
  have hagain := scan_based hsign hradix'
  rw [hword.takeWhile hrun, hword.dropWhile hrun] at hagain
  rw [hscan, piece_text, piece_again]
  exact hagain

/-- The digits in front of a point and a scale are read from their text again. -/
theorem decimals_again (body : List Char)
    (h : Ends signAllowed signAllowed' (exponent (fraction (decimals body).2).2).2 tail) :
    decimals ((decimals body).1 ++ ((fraction (decimals body).2).1 ++
        ((exponent (fraction (decimals body).2).2).1 ++ tail))) =
      ((decimals body).1, (fraction (decimals body).2).1 ++
        ((exponent (fraction (decimals body).2).2).1 ++ tail)) := by
  have hdigits : ∀ c ∈ (decimals body).1, c.isDigit = true := fun c hc => mem_takeWhile hc
  have hstops : Stops Char.isDigit ((fraction (decimals body).2).1 ++
      (exponent (fraction (decimals body).2).2).1 ++
        (exponent (fraction (decimals body).2).2).2) := by
    rw [List.append_assoc, exponent_split, fraction_split]
    exact stops_dropWhile _ _
  have hstops' := hstops.append h.digit
  rw [List.append_assoc] at hstops'
  exact Prod.ext (hstops'.takeWhile hdigits) (hstops'.dropWhile hdigits)

theorem scan_again_decimal {cs : List Char} (hradix : radix? (sign cs).2 = none)
    (h : Ends signAllowed signAllowed' (scan cs).rest tail) :
    scan ((scan cs).text ++ tail) = { scan cs with rest := tail } := by
  let behindWhole := (decimals (sign cs).2).2
  let behindPoint := (fraction behindWhole).2
  have hscan := scan_decimal rfl hradix rfl rfl rfl
  rw [hscan, piece_rest] at h
  have hscale := exponent_again behindPoint h
  have hfraction := fraction_again (exponent_split behindPoint).symm
    (by rw [exponent_split]) h
  have hdecimals := decimals_again (sign cs).2 h
  have hbody : (sign cs).2 = (decimals (sign cs).2).1 ++ ((fraction behindWhole).1 ++
      (exponent behindPoint).1) ++ (exponent behindPoint).2 := by
    rw [List.append_assoc, List.append_assoc, exponent_split, fraction_split, decimals_split]
  have hradix' := h.radix? _ (hbody ▸ hradix)
  have hsign := sign_again hbody h
  rw [hscan, piece_text, piece_again]
  simp only [List.append_assoc] at hsign hradix' ⊢
  have hagain := scan_decimal hsign hradix' hdecimals hfraction hscale
  simp only [List.append_assoc] at hagain
  exact hagain

/-- A number, and also a malformed one, is read from its text again. -/
theorem scan_again (cs : List Char) (h : Ends signAllowed signAllowed' (scan cs).rest tail) :
    scan ((scan cs).text ++ tail) = { scan cs with rest := tail } := by
  cases hradix : radix? (sign cs).2 with
  | some found => exact scan_again_based hradix h
  | none => exact scan_again_decimal hradix h

end Numeral

end PirFrontend
