import PirFrontend.Code.Instruction
import PirFrontend.Proofs.Rescanning

/-!
Literals as instructions show them. The text of a register or an int is one token, and its value is
the one that was written.
-/
namespace PirFrontend

/-! Digits -/

namespace Text

theorem digitChar_isDigit : ∀ d < 10, (digitChar d).isDigit = true := by decide

theorem digitValue?_digitChar : ∀ d < 10, digitValue? (digitChar d) = some d := by decide

theorem digits_ten (n : Nat) : digits 10 n =
    if n < 10 then [digitChar n] else digits 10 (n / 10) ++ [digitChar (n % 10)] := by
  rw [digits]
  rfl

theorem digits_ne_nil (n : Nat) : digits 10 n ≠ [] := by
  rw [digits_ten]
  split <;> simp

theorem mem_digits {base : Nat} {c : Char} (n : Nat) (h : c ∈ digits base n) :
    ∃ d < max base 2, c = digitChar d := by
  induction n using Nat.strongRecOn with
  | ind n ih =>
  rw [digits] at h
  split at h
  next hlt => exact ⟨n, hlt, List.mem_singleton.1 h⟩
  next hge =>
    have hsmaller : n / max base 2 < n := Nat.div_lt_self (by omega) (by omega)
    rcases List.mem_append.1 h with hfront | hlast
    · exact ih _ hsmaller hfront
    · exact ⟨n % max base 2, Nat.mod_lt _ (by omega), List.mem_singleton.1 hlast⟩

theorem isDigit_digits (n : Nat) : ∀ c ∈ digits 10 n, c.isDigit = true := by
  intro c hc
  obtain ⟨d, hd, rfl⟩ := mem_digits n hc
  exact digitChar_isDigit d hd

theorem valueFrom_append (base : Nat) (u v : List Char) (read : Nat) :
    valueFrom base read (u ++ v) = (valueFrom base read u).bind (valueFrom base · v) := by
  induction u generalizing read with
  | nil => rfl
  | cons c u ih =>
    simp only [List.cons_append, valueFrom]
    cases digitValue? c with
    | none => rfl
    | some d =>
      dsimp only
      split
      · exact ih _
      · rfl

theorem valueFrom_digit (read : Nat) {d : Nat} (hd : d < 10) :
    valueFrom 10 read [digitChar d] = some (read * 10 + d) := by
  simp only [valueFrom, digitValue?_digitChar d hd, if_pos hd]

theorem valueFrom_digits (n : Nat) : valueFrom 10 0 (digits 10 n) = some n := by
  induction n using Nat.strongRecOn with
  | ind n ih =>
  rw [digits_ten]
  split
  next hlt => rw [valueFrom_digit 0 hlt, Nat.zero_mul, Nat.zero_add]
  next =>
    -- The last digit is read behind the number that the others make.
    rw [valueFrom_append, ih (n / 10) (by omega), Option.bind_some,
      valueFrom_digit _ (Nat.mod_lt n (by decide)), Nat.div_add_mod']

/-- A number is read from its digits. -/
theorem value?_digits (n : Nat) : value? 10 (digits 10 n) = some n := by
  have h := valueFrom_digits n
  cases hd : digits 10 n with
  | nil => exact absurd hd (digits_ne_nil n)
  | cons c cs =>
    rw [hd] at h
    exact h

end Text

/-! Ints -/

namespace Numeral

variable {ds tail : List Char}

/-- Digits begin no base, for its letter is none of them. -/
theorem radix?_of_digits (h : ∀ c ∈ ds, c.isDigit = true) : radix? ds = none := by
  match ds with
  | [] => rfl
  | [c] => simp [radix?]
  | c :: d :: ds =>
    have hd : d.isDigit = true := h d (List.mem_cons_of_mem c List.mem_cons_self)
    have hne {e : Char} (he : e.isDigit = false) : d ≠ e := by
      rintro rfl
      rw [hd] at he
      cases he
    have hbase : base? d = none := by
      simp only [base?, hne (e := 'x') (by decide), hne (e := 'X') (by decide),
        hne (e := 'b') (by decide), hne (e := 'B') (by decide), or_self, if_false]
    by_cases hc : c = '0'
    · subst hc
      simp [radix?, hbase]
    · simp [radix?, hc]

theorem radix?_digits (h : ∀ c ∈ ds, c.isDigit = true) (htail : Separated tail) :
    radix? (ds ++ tail) = none := by
  have hnone : radix? (ds ++ []) = none := by
    rw [List.append_nil]
    exact radix?_of_digits h
  exact radix?_again hnone htail

/-- Digits in front of a separator make a literal without point and scale. -/
theorem scan_digits {cs minus : List Char} (hsign : sign cs = (minus, ds ++ tail))
    (h : ∀ c ∈ ds, c.isDigit = true) (htail : Separated tail) :
    scan cs = piece (decimalKind? minus ds [] []) (minus ++ ds) tail := by
  have hdigit : Stops Char.isDigit tail := htail.stops (by decide)
  have hwhole : decimals (ds ++ tail) = (ds, tail) :=
    Prod.ext (hdigit.takeWhile h) (hdigit.dropWhile h)
  have hpoint : fraction tail = ([], tail) := fraction_of_stops (htail.stops (by decide))
  have hscale : exponent tail = ([], tail) := exponent_of_stops (htail.stops (by decide))
  have hscan := scan_decimal hsign (radix?_digits h htail) hwhole hpoint hscale
  rwa [List.append_nil, List.append_nil] at hscan

/-- An int is read from its sign and its digits. -/
theorem int?_natAbs (n : Int64) : int? (decide (n.toInt < 0)) n.toInt.natAbs = some n := by
  have hlow := n.le_toInt
  have hhigh := n.toInt_lt
  have hpow : Nat.pow 2 63 = 9223372036854775808 := by decide
  unfold int?
  by_cases hn : n.toInt < 0
  · have hmagnitude : n.toInt.natAbs ≤ Nat.pow 2 63 := by omega
    have hvalue : -(n.toInt.natAbs : Int) = n.toInt := by omega
    simp only [hn, decide_true, if_true, if_pos hmagnitude, hvalue, Int64.ofInt_toInt]
  · have hmagnitude : n.toInt.natAbs < Nat.pow 2 63 := by omega
    have hvalue : (n.toInt.natAbs : Int) = n.toInt := by omega
    simp only [hn, decide_false, Bool.false_eq_true, if_false, if_pos hmagnitude, hvalue,
      Int64.ofInt_toInt]

theorem decimalKind?_int (n : Int64) :
    decimalKind? (if n.toInt < 0 then ['-'] else []) (Text.digits 10 n.toInt.natAbs) [] [] =
      some (.int n) := by
  have hminus : (!(if n.toInt < 0 then ['-'] else []).isEmpty) = decide (n.toInt < 0) := by
    split <;> simp [*]
  simp only [decimalKind?, List.isEmpty_nil, Bool.and_self, if_true, Text.value?_digits, hminus,
    Option.bind_some, int?_natAbs, Option.map_some]

end Numeral

/-! Tokens -/

theorem wordChars_of_isWordStart {c : Char} {w : List Char} (hc : isWordStart c = true)
    (hw : ∀ d ∈ w, isWordChar d = true) : ∀ d ∈ c :: w, isWordChar d = true := by
  intro d hd
  obtain rfl | hd := List.mem_cons.1 hd
  · exact isWordChar_of_isWordStart hc
  · exact hw d hd

/-- The name is a word. It may spell a keyword. -/
def IsWord (name : String) : Prop :=
  ∃ c w, name.toList = c :: w ∧ isWordStart c = true ∧ ∀ d ∈ w, isWordChar d = true

instance (name : String) : Decidable (IsWord name) :=
  decidable_of_iff
    ((name.toList.head?.any isWordStart && name.toList.tail.all isWordChar) = true) <| by
      unfold IsWord
      cases name.toList with
      | nil => simp
      | cons c w => simp

namespace Lexer

variable {l : Lexer} {name : String} {blanks tail : List Char}

/-- The next token is of this kind and text, and behind it is `tail`. -/
def Reads (l : Lexer) (kind : TokenKind) (text tail : List Char) : Prop :=
  ∃ (t : Token) (l' : Lexer), l.steps = .ok t :: l'.steps ∧ t.kind = kind ∧
    t.lexeme = String.ofList text ∧ l'.rest = tail ∧ l'.sign = SignRule.after kind

/-- A text that holds one token and nothing else. -/
theorem Reads.alone {source : Nat} {text : String} {kind : TokenKind} {cs : List Char}
    (h : (ofString source text).Reads kind cs []) : ∃ t, (ofString source text).tokens = .ok [t] ∧
      t.kind = kind ∧ t.lexeme = String.ofList cs := by
  obtain ⟨t, l', hsteps, hkind, hlexeme, hrest, -⟩ := h
  rw [steps_of_rest_nil hrest] at hsteps
  exact ⟨t, tokens_of_steps hsteps, hkind, hlexeme⟩

theorem reads_of_scan {c : Char} {v : List Char} {p : Piece} {kind : TokenKind}
    (hrest : l.rest = blanks ++ c :: v) (hblanks : ∀ b ∈ blanks, isBlank b = true)
    (hscan : Piece.scan (l.sign.permits (!blanks.isEmpty)) c v = p) (hp : p.reading = .ok kind) :
    l.Reads kind p.text p.rest := by
  obtain ⟨t, l', hnext, hkind, hlexeme, hrest', hsign⟩ := next_of_scan hrest hblanks hscan hp
  exact ⟨t, l', steps_of_token hnext, hkind, hlexeme, hrest', hsign⟩

theorem reads_newline (hrest : l.rest = '\n' :: tail) : l.Reads .newline ['\n'] tail :=
  reads_of_scan (show l.rest = [] ++ '\n' :: tail from hrest) nofun rfl rfl

/-- The marks of keys and of lists of operands begin no longer operator. -/
theorem reads_mark (op : Operator)
    (hop : op ∈ [.leftBracket, .rightBracket, .comma, .semicolon]) (blanks : List Char)
    (hrest : l.rest = blanks ++ (op.glyphs ++ tail)) (hblanks : ∀ b ∈ blanks, isBlank b = true) :
    l.Reads (.operator op) op.glyphs tail := by
  simp only [List.mem_cons, List.not_mem_nil, or_false] at hop
  have hscan (signAllowed : Bool) : ∃ c, op.glyphs = [c] ∧
      Piece.scan signAllowed c tail = .token (.operator op) [c] tail := by
    obtain rfl | rfl | rfl | rfl := hop <;> cases signAllowed <;> exact ⟨_, rfl, rfl⟩
  obtain ⟨c, hc, hscan⟩ := hscan (l.sign.permits (!blanks.isEmpty))
  rw [hc] at hrest ⊢
  exact reads_of_scan hrest hblanks hscan rfl

/-- A word with neither a colon nor another word behind it. -/
theorem reads_word (h : IsWord name) (hrest : l.rest = blanks ++ (name.toList ++ tail))
    (hblanks : ∀ b ∈ blanks, isBlank b = true) (htail : Separated tail) :
    l.Reads (.ofName name.toList) name.toList tail := by
  obtain ⟨c, w, hname, hc, hw⟩ := h
  have hrun := wordChars_of_isWordStart hc hw
  rw [hname] at hrest ⊢
  exact reads_of_scan hrest hblanks
    ((Piece.scan_of_isWordStart hc _ _).trans (Piece.word_eq_name hrun (htail.stops (by decide))
      htail.endsLabel)) rfl

/-- A word with a colon and a separator behind it. -/
theorem reads_label (h : IsWord name) (hrest : l.rest = name.toList ++ ':' :: tail)
    (htail : Separated tail) : l.Reads .label name.toList tail := by
  obtain ⟨c, w, hname, hc, hw⟩ := h
  have hrun := wordChars_of_isWordStart hc hw
  rw [hname] at hrest ⊢
  exact reads_of_scan (show l.rest = [] ++ c :: (w ++ ':' :: tail) from hrest) nofun
    ((Piece.scan_of_isWordStart hc _ _).trans (Piece.word_eq_label hrun htail.closesLabel)) rfl

theorem reads_directive (d : Directive) {c : Char} {w : List Char}
    (hd : Directive.ofSpelling? (String.ofList ('.' :: c :: w)) = some d)
    (hc : isWordStart c = true) (hw : ∀ d ∈ w, isWordChar d = true)
    (hrest : l.rest = '.' :: (c :: w ++ tail)) (htail : Separated tail) :
    l.Reads (.directive d) ('.' :: c :: w) tail := by
  have hrun := wordChars_of_isWordStart hc hw
  have hscan (signAllowed : Bool) : Piece.scan signAllowed '.' (c :: w ++ tail) =
      .token (.directive d) ('.' :: c :: w) tail := by
    rw [Piece.scan_directive (show (c :: w ++ tail).head?.any isWordStart = true from hc),
      Piece.directive?_again hd hrun (htail.stops (by decide))]
    rfl
  exact reads_of_scan (show l.rest = [] ++ '.' :: (c :: w ++ tail) from hrest) nofun (hscan _) rfl

theorem reads_register (cls : RegisterClass) {number : Nat} (hnumber : number < Nat.pow 2 32)
    (hrest : l.rest = blanks ++ '$' :: cls.letter :: Text.digits 10 number ++ tail)
    (hblanks : ∀ b ∈ blanks, isBlank b = true) (htail : Separated tail) :
    l.Reads (.register cls number) ('$' :: cls.letter :: Text.digits 10 number) tail := by
  have hdigits := Text.isDigit_digits number
  have hrun : ∀ d ∈ cls.letter :: Text.digits 10 number, isWordChar d = true := by
    intro d hd
    obtain rfl | hd := List.mem_cons.1 hd
    · cases cls <;> rfl
    · simp [isWordChar, Char.isAlphanum, hdigits d hd]
  have hclass : RegisterClass.ofLetter? cls.letter = some cls := by
    cases cls <;> rfl
  have hkind : Piece.registerKind? (cls.letter :: Text.digits 10 number) =
      some (.register cls number) := by
    simp [Piece.registerKind?, hclass, List.all_eq_true.2 hdigits, Text.value?_digits, hnumber]
  rw [List.append_assoc] at hrest
  exact reads_of_scan hrest hblanks (Piece.register_again hkind hrun (htail.stops (by decide))) rfl

theorem toList_render_int (n : Int64) : (ConstantValue.int n).render.toList =
    (if n.toInt < 0 then ['-'] else []) ++ Text.digits 10 n.toInt.natAbs :=
  String.toList_ofList

theorem reads_int {n : Int64} (hsign : l.sign.permits (!blanks.isEmpty) = true)
    (hrest : l.rest = blanks ++ (ConstantValue.int n).render.toList ++ tail)
    (hblanks : ∀ b ∈ blanks, isBlank b = true) (htail : Separated tail) :
    l.Reads (.int n) (ConstantValue.int n).render.toList tail := by
  have hdigits := Text.isDigit_digits n.toInt.natAbs
  have hne := Text.digits_ne_nil n.toInt.natAbs
  have hkind := Numeral.decimalKind?_int n
  rw [toList_render_int, List.append_assoc] at hrest
  rw [toList_render_int]
  generalize Text.digits 10 n.toInt.natAbs = ds at *
  obtain ⟨d, ds, rfl⟩ := List.exists_cons_of_ne_nil hne
  have hd := hdigits d List.mem_cons_self
  by_cases hn : n.toInt < 0
  · simp only [hn, if_true] at hkind hrest ⊢
    have hstarts : Numeral.starts (l.sign.permits (!blanks.isEmpty)) ('-' :: (d :: ds ++ tail)) =
        true := by
      simp [Numeral.starts, hsign, hd]
    have hsigned : Numeral.sign ('-' :: (d :: ds ++ tail)) = (['-'], d :: ds ++ tail) := rfl
    have hscan := Numeral.scan_digits hsigned hdigits htail
    rw [hkind] at hscan
    exact reads_of_scan hrest hblanks ((Piece.scan_number hstarts).trans hscan) rfl
  · simp only [hn, if_false, List.nil_append] at hkind hrest ⊢
    have hstarts : Numeral.starts (l.sign.permits (!blanks.isEmpty)) (d :: (ds ++ tail)) =
        true := by
      simp [Numeral.starts, hd]
    have hunsigned : Numeral.sign (d :: ds ++ tail) = ([], d :: ds ++ tail) := by
      apply Numeral.sign_of_stops
      rintro _ ⟨⟩
      apply beq_false_of_ne
      rintro rfl
      cases hd
    have hscan := Numeral.scan_digits hunsigned hdigits htail
    rw [hkind] at hscan
    exact reads_of_scan hrest hblanks ((Piece.scan_number hstarts).trans hscan) rfl

end Lexer
end PirFrontend
