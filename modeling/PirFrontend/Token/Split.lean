import PirFrontend.Token.Scan

/-!
Pieces lose nothing. Whatever the scanner reads, the text, the gap and the rest of the piece make
up the text it was given, and the piece covers at least one character of it.
-/
namespace PirFrontend

namespace Quoted

theorem body?_split (quote : Char) (cs : List Char) :
    ∀ b, body? quote cs = some b → cs = b.text ++ b.rest := by
  fun_induction body? quote cs with
  | case1 | case2 | case3 | case4 | case5 | case6 => simp
  | case7 c d rest _ _ _ _ ih =>
    intro b hb
    obtain ⟨e, he, rfl⟩ := Option.map_eq_some_iff.1 hb
    simp [Body.push, ← ih e he]
  | case8 c d rest _ _ _ ih =>
    intro b hb
    obtain ⟨e, he, rfl⟩ := Option.map_eq_some_iff.1 hb
    simp [Body.push, ← ih e he]

end Quoted

namespace Numeral

theorem sign_split (cs : List Char) : (sign cs).1 ++ (sign cs).2 = cs := by
  unfold sign
  split <;> rfl

theorem decimals_split (cs : List Char) : (decimals cs).1 ++ (decimals cs).2 = cs :=
  List.takeWhile_append_dropWhile

theorem fraction_split (cs : List Char) : (fraction cs).1 ++ (fraction cs).2 = cs := by
  unfold fraction
  split
  · split <;> simp [List.takeWhile_append_dropWhile]
  · rfl

theorem exponent_split (cs : List Char) : (exponent cs).1 ++ (exponent cs).2 = cs := by
  unfold exponent
  split
  · split
    · simp [List.takeWhile_append_dropWhile]
    · split <;> simp [List.takeWhile_append_dropWhile]
  · rfl

theorem radix?_split (cs : List Char) (base : Nat) (x : Char) (rest : List Char)
    (h : radix? cs = some (base, x, rest)) : cs = '0' :: x :: rest := by
  unfold radix? at h
  split at h
  · obtain ⟨b, _, hb⟩ := Option.map_eq_some_iff.1 h
    simp_all
  · simp at h

theorem piece_text (kind : Option TokenKind) (text rest : List Char) :
    (piece kind text rest).text = text := by
  unfold piece
  split <;> rfl

theorem piece_gap (kind : Option TokenKind) (text rest : List Char) :
    (piece kind text rest).gap = [] := by
  unfold piece
  split <;> rfl

theorem piece_rest (kind : Option TokenKind) (text rest : List Char) :
    (piece kind text rest).rest = rest := by
  unfold piece
  split <;> rfl

theorem scan_split (cs : List Char) :
    (scan cs).text ++ (scan cs).gap ++ (scan cs).rest = cs := by
  have hs := sign_split cs
  unfold scan
  dsimp only
  split
  next base x rest hr =>
    simp only [piece_text, piece_gap, piece_rest]
    have := radix?_split _ _ _ _ hr
    simp [List.takeWhile_append_dropWhile, ← this, hs]
  next =>
    have hd := decimals_split (sign cs).2
    have hf := fraction_split (decimals (sign cs).2).2
    have he := exponent_split (fraction (decimals (sign cs).2).2).2
    split <;> simp [piece_text, piece_gap, piece_rest, he, hf, hd, hs]

/-- A literal that is not malformed is an int or a num. -/
theorem scan_eq_piece (cs : List Char) : ∃ kind text rest, scan cs = piece kind text rest ∧
    ∀ k, kind = some k → (∃ v, k = .int v) ∨ ∃ x, k = .num x := by
  have hint (value : Option Int64) (k : TokenKind) (h : value.map .int = some k) :
      (∃ v, k = .int v) ∨ ∃ x, k = .num x := by
    obtain ⟨v, -, rfl⟩ := Option.map_eq_some_iff.1 h
    exact .inl ⟨v, rfl⟩
  unfold scan
  dsimp only
  split
  next => exact ⟨_, _, _, rfl, hint _⟩
  next =>
    split
    · exact ⟨_, _, _, rfl, hint _⟩
    · exact ⟨_, _, _, rfl, fun _ h => .inr ⟨_, (Option.some.inj h).symm⟩⟩

theorem scan_reading {cs : List Char} {k : TokenKind} (h : (scan cs).reading = .ok k) :
    (∃ v, k = .int v) ∨ ∃ x, k = .num x := by
  obtain ⟨kind, text, rest, hscan, hkind⟩ := scan_eq_piece cs
  rw [hscan] at h
  cases kind with
  | none => cases h
  | some k' =>
    obtain rfl := Except.ok.inj h
    exact hkind k' rfl

end Numeral

namespace Operator

theorem scan?_split (cs : List Char) (op : Operator) (rest : List Char)
    (h : scan? cs = some (op, rest)) : op.glyphs ++ rest = cs := by
  obtain ⟨o, ho, he⟩ := Option.map_eq_some_iff.1 h
  simp only [Prod.mk.injEq] at he
  obtain ⟨rfl, rfl⟩ := he
  have hp := List.find?_some ho
  obtain ⟨t, rfl⟩ := List.isPrefixOf_iff_prefix.1 hp
  simp

theorem glyphs_ne_nil (op : Operator) : op.glyphs ≠ [] := by
  cases op <;> simp [glyphs]

end Operator

namespace Piece

/-- The three parts of a piece, joined again. -/
def whole (p : Piece) : List Char := p.text ++ p.gap ++ p.rest

theorem whole_word (cs : List Char) : (word cs).whole = cs := by
  have h := List.takeWhile_append_dropWhile (p := isWordChar) (l := cs)
  unfold word
  dsimp only
  split
  next rest hr =>
    rw [hr] at h
    split <;> simp [whole, token, h]
  next => simp [whole, token]

theorem whole_operator (c : Char) (rest : List Char) : (operator c rest).whole = c :: rest := by
  unfold operator
  split
  next op after h => simpa [whole, token] using Operator.scan?_split _ _ _ h
  next => simp [whole, fault]

theorem whole_directive? (rest : List Char) (p : Piece) (h : directive? rest = some p) :
    p.whole = '.' :: rest := by
  obtain ⟨d, _, rfl⟩ := Option.map_eq_some_iff.1 h
  simp [whole, token, List.takeWhile_append_dropWhile]

theorem whole_flag (rest : List Char) : (flag rest).whole = ':' :: rest := by
  unfold flag
  dsimp only
  split <;> simp [whole, token, fault, List.takeWhile_append_dropWhile]

theorem whole_register (rest : List Char) : (register rest).whole = '$' :: rest := by
  unfold register
  dsimp only
  split <;> simp [whole, token, fault, List.takeWhile_append_dropWhile]

theorem whole_quoted (quote : Char) (cs : List Char) :
    (Quoted.scan quote cs).whole = quote :: cs := by
  unfold Quoted.scan
  split
  next b h => simp [whole, token, ← Quoted.body?_split _ _ _ h]
  next => simp [whole, fault, List.takeWhile_append_dropWhile]

/-- The ways in which a piece is read, each with what the text begins with. A dot begins a directive
or an operator, and what nothing else takes is an operator or no token at all. -/
inductive Scanned (signAllowed : Bool) : Char → List Char → Piece → Prop
  | newline (rest : List Char) : Scanned signAllowed '\n' rest (.token .newline ['\n'] rest)
  | quoted {c : Char} (hc : c = '"' ∨ c = '\'') (rest : List Char) :
      Scanned signAllowed c rest (Quoted.scan c rest)
  | register (rest : List Char) : Scanned signAllowed '$' rest (register rest)
  | flag {rest : List Char} (h : rest.head?.any isWordStart = true) :
      Scanned signAllowed ':' rest (flag rest)
  | directive {rest : List Char} {p : Piece} (h : rest.head?.any isWordStart = true)
      (hp : directive? rest = some p) : Scanned signAllowed '.' rest p
  | word {c : Char} (hc : isWordStart c = true) (rest : List Char) :
      Scanned signAllowed c rest (word (c :: rest))
  | number {c : Char} {rest : List Char}
      (hstarts : Numeral.starts signAllowed (c :: rest) = true) :
      Scanned signAllowed c rest (Numeral.scan (c :: rest))
  | operator (c : Char) (rest : List Char) : Scanned signAllowed c rest (operator c rest)

/-- Every piece is read in one of these ways. -/
theorem scanned (signAllowed : Bool) (c : Char) (rest : List Char) :
    Scanned signAllowed c rest (scan signAllowed c rest) := by
  unfold scan
  split
  next h => subst h; exact .newline rest
  split
  next h => exact .quoted h rest
  split
  next h => subst h; exact .register rest
  split
  next h => obtain ⟨rfl, h⟩ := h; exact .flag h
  split
  next h =>
    obtain ⟨rfl, h⟩ := h
    cases hp : directive? rest with
    | none => exact .operator _ rest
    | some p => exact .directive h hp
  split
  next h => exact .word h rest
  split
  next h => exact .number h
  next => exact .operator c rest

/-- Scanning splits the text and drops none of it. -/
theorem whole_scan (signAllowed : Bool) (c : Char) (rest : List Char) :
    (scan signAllowed c rest).whole = c :: rest := by
  have h := scanned signAllowed c rest
  generalize scan signAllowed c rest = p at h ⊢
  cases h with
  | newline => rfl
  | quoted => exact whole_quoted c rest
  | register => exact whole_register rest
  | flag => exact whole_flag rest
  | directive _ hp => exact whole_directive? rest p hp
  | word => exact whole_word (c :: rest)
  | number => exact Numeral.scan_split (c :: rest)
  | operator => exact whole_operator c rest

/-- A word has its first character at least. -/
theorem text_word_ne_nil (c : Char) (rest : List Char) (h : isWordStart c) :
    (word (c :: rest)).text ≠ [] := by
  have hc : isWordChar c := by
    simp only [isWordStart, isWordChar, Char.isAlphanum, Bool.or_eq_true] at h ⊢
    exact h.imp_left .inl
  unfold word
  dsimp only
  split
  · split <;> simp [token, hc]
  · simp [token, hc]

theorem text_numeral_ne_nil (signAllowed : Bool) (c : Char) (rest : List Char)
    (h : Numeral.starts signAllowed (c :: rest)) : (Numeral.scan (c :: rest)).text ≠ [] := by
  by_cases hm : c = '-'
  · subst hm
    unfold Numeral.scan
    simp only [Numeral.sign]
    split
    · simp [Numeral.piece_text]
    · split <;> simp [Numeral.piece_text]
  · have hd : c.isDigit := by simpa [Numeral.starts, hm] using h
    have hs : Numeral.sign (c :: rest) = ([], c :: rest) := by
      unfold Numeral.sign
      split
      next he => simp_all
      next => rfl
    unfold Numeral.scan
    rw [hs]
    dsimp only
    split
    · simp [Numeral.piece_text]
    · split <;> simp [Numeral.piece_text, Numeral.decimals, hd]

theorem text_operator_ne_nil (c : Char) (rest : List Char) : (operator c rest).text ≠ [] := by
  unfold operator
  split
  next op _ _ => exact op.glyphs_ne_nil
  next => simp [fault]

/-- Scanning always reads something. -/
theorem text_scan_ne_nil (signAllowed : Bool) (c : Char) (rest : List Char) :
    (scan signAllowed c rest).text ≠ [] := by
  have h := scanned signAllowed c rest
  generalize scan signAllowed c rest = p at h ⊢
  cases h with
  | newline => simp [token]
  | quoted =>
    unfold Quoted.scan
    split <;> simp [token, fault]
  | register =>
    unfold register
    dsimp only
    split <;> simp [token, fault]
  | flag =>
    unfold flag
    dsimp only
    split <;> simp [token, fault]
  | directive _ hp =>
    obtain ⟨d, _, rfl⟩ := Option.map_eq_some_iff.1 hp
    simp [token]
  | word hc => exact text_word_ne_nil c rest hc
  | number hstarts => exact text_numeral_ne_nil signAllowed c rest hstarts
  | operator => exact text_operator_ne_nil c rest

/-- Scanning leaves less than it was given. -/
theorem length_rest_scan (signAllowed : Bool) (c : Char) (rest : List Char) :
    (scan signAllowed c rest).rest.length < (c :: rest).length := by
  have h := List.length_pos_iff.2 (text_scan_ne_nil signAllowed c rest)
  rw [← whole_scan signAllowed c rest]
  simp only [whole, List.length_append]
  omega

end Piece
end PirFrontend
