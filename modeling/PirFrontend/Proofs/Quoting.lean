import PirFrontend.Proofs.Literals

/-!
String constants read back. The text of a string constant is always one string token. Its value is
the string itself when every character is shown; a character that is written by its code point
comes back as the text it was written with, for the scanner gives `\u` no meaning.
-/
namespace PirFrontend

namespace Text

/-- The characters that strings show as themselves or with a letter of their own. -/
def isShown (c : Char) : Bool := isPrintable c || c == '\t' || c == '\r' || c == '\n'

/-- What a character is written as is read as that character. -/
theorem body?_escapeChar {c : Char} (hc : isShown c = true) {rest : List Char} {b : Quoted.Body}
    (h : Quoted.body? '"' rest = some b) :
    Quoted.body? '"' (escapeChar c ++ rest) = some (b.push [c] (escapeChar c)) := by
  unfold escapeChar
  split
  next hc => subst hc; exact Quoted.body?_escaped (by decide) h
  split
  next hc => subst hc; exact Quoted.body?_escaped (by decide) h
  split
  next hc => subst hc; exact Quoted.body?_escaped (by decide) h
  next hnewline =>
  split
  next hc => obtain rfl | rfl | rfl := hc <;> exact Quoted.body?_escaped (by decide) h
  next hspecial =>
  split
  next =>
    simp only [not_or] at hspecial
    exact Quoted.body?_cons hnewline hspecial.2.1 (by simp [hspecial.2.2]) h
  next hprintable => simp_all [isShown]

/-- The characters that double quotes hold unchanged. -/
def isPlain (c : Char) : Bool := c != '\n' && c != '"' && c != '\\'

theorem body?_plain {u rest : List Char} {b : Quoted.Body} (hu : ∀ c ∈ u, isPlain c = true)
    (h : Quoted.body? '"' rest = some b) :
    Quoted.body? '"' (u ++ rest) = some (b.push u u) := by
  induction u with
  | nil => exact h
  | cons c u ih =>
    have hc := hu c List.mem_cons_self
    simp only [isPlain, Bool.and_eq_true, bne_iff_ne, and_assoc] at hc
    obtain ⟨hnewline, hquote, hslash⟩ := hc
    exact Quoted.body?_cons hnewline hquote (by simp [hslash])
      (ih fun d hd => hu d (List.mem_cons_of_mem c hd))

/-- What is read back where the character was written: its own escape, if it is not shown. -/
def reread (c : Char) : List Char := if isShown c then [c] else escapeChar c

theorem escapeChar_hidden {c : Char} (hc : isShown c = false) :
    escapeChar c = '\\' :: 'u' :: ('\x7b' :: digits 16 c.toNat ++ ['\x7d']) := by
  have hquotes : ∀ d, d = '\'' ∨ d = '"' ∨ d = '\\' → isShown d = true := by
    rintro d (rfl | rfl | rfl) <;> decide
  have hne {d : Char} (hd : isShown d = true) : c ≠ d := by
    rintro rfl
    rw [hc] at hd
    cases hd
  have hspecial : ¬(c = '\'' ∨ c = '"' ∨ c = '\\') := fun h => by simp [hquotes c h] at hc
  have hprintable : isPrintable c = false := by
    simp only [isShown, Bool.or_eq_false_iff, and_assoc] at hc
    exact hc.1
  rw [escapeChar, if_neg (hne (by decide)), if_neg (hne (by decide)), if_neg (hne (by decide)),
    if_neg hspecial, hprintable]
  rfl

/-- Behind a backslash `u` means nothing, and so the escape is read as it stands. -/
theorem body?_hidden {c : Char} (hc : isShown c = false) {rest : List Char} {b : Quoted.Body}
    (h : Quoted.body? '"' rest = some b) :
    Quoted.body? '"' (escapeChar c ++ rest) = some (b.push (escapeChar c) (escapeChar c)) := by
  have hbraces : ∀ d ∈ '\x7b' :: digits 16 c.toNat ++ ['\x7d'], isPlain d = true := by
    intro d hd
    have hdigit : ∀ n < 16, isPlain (digitChar n) = true := by decide
    rw [List.cons_append, List.mem_cons, List.mem_append, List.mem_singleton] at hd
    obtain rfl | hd | rfl := hd
    · rfl
    · obtain ⟨n, hn, rfl⟩ := mem_digits _ hd
      exact hdigit n hn
    · rfl
  rw [escapeChar_hidden hc]
  -- First the pair of backslash and letter, then the braces with the digits between them.
  exact Quoted.body?_escaped (by decide) (body?_plain hbraces h)

/-- No character of a string ends its literal early or joins the escape of the next one. -/
theorem body?_escape (s tail : List Char) :
    Quoted.body? '"' (escape s ++ '"' :: tail) =
      some ⟨s.flatMap reread, escape s ++ ['"'], tail⟩ := by
  induction s with
  | nil => exact Quoted.body?_quote (by decide) tail
  | cons c s ih =>
    have hbody : Quoted.body? '"' (escapeChar c ++ (escape s ++ '"' :: tail)) =
        some ⟨reread c ++ s.flatMap reread, escapeChar c ++ (escape s ++ ['"']), tail⟩ := by
      unfold reread
      cases hc : isShown c with
      | true => exact body?_escapeChar hc ih
      | false => exact body?_hidden hc ih
    rw [escape, List.flatMap_cons, List.append_assoc, List.append_assoc]
    exact hbody

theorem length_reread_hidden {c : Char} (hc : isShown c = false) : 1 < (reread c).length := by
  rw [reread, hc, if_neg Bool.false_ne_true, escapeChar_hidden hc]
  simp

theorem length_le_reread (s : List Char) : s.length ≤ (s.flatMap reread).length := by
  induction s with
  | nil => exact Nat.le_refl 0
  | cons c s ih =>
    have hc : 1 ≤ (reread c).length := by
      cases h : isShown c with
      | true => simp [reread, h]
      | false => exact Nat.le_of_lt (length_reread_hidden h)
    rw [List.flatMap_cons, List.length_append, List.length_cons]
    omega

/-- A hidden character makes the text longer, so what is read back is another text. -/
theorem reread_eq_self_iff (s : List Char) :
    s.flatMap reread = s ↔ ∀ c ∈ s, isShown c = true := by
  induction s with
  | nil => simp
  | cons c s ih =>
    rw [List.forall_mem_cons, List.flatMap_cons]
    cases hc : isShown c with
    | true => simp [reread, hc, ih]
    | false =>
      refine iff_of_false (fun heq => ?_) (by simp)
      have hlength := congrArg List.length heq
      have hhidden := length_reread_hidden hc
      have hmore := length_le_reread s
      rw [List.length_append, List.length_cons] at hlength
      omega

theorem isShown_iff (c : Char) :
    isShown c = true ↔ (' ' ≤ c ∧ c ≤ '~') ∨ c = '\t' ∨ c = '\r' ∨ c = '\n' := by
  simp only [isShown, isPrintable, Bool.or_eq_true, Bool.and_eq_true, decide_eq_true_eq,
    beq_iff_eq, or_assoc]

end Text

namespace Lexer

variable {l : Lexer} {blanks tail : List Char}

theorem toList_render_string (s : String) :
    (ConstantValue.string s).render.toList = '"' :: (Text.escape s.toList ++ ['"']) :=
  String.toList_ofList

/-- The text of a string, whatever its characters, is a string token. -/
theorem reads_quoted (s : String)
    (hrest : l.rest = blanks ++ (ConstantValue.string s).render.toList ++ tail)
    (hblanks : ∀ b ∈ blanks, isBlank b = true) :
    l.Reads (.string (String.ofList (s.toList.flatMap Text.reread)))
      (ConstantValue.string s).render.toList tail := by
  have hbody := Text.body?_escape s.toList tail
  have hscan : Piece.scan (l.sign.permits (!blanks.isEmpty)) '"'
      (Text.escape s.toList ++ '"' :: tail) =
        .token (.string (String.ofList (s.toList.flatMap Text.reread)))
          ('"' :: (Text.escape s.toList ++ ['"'])) tail := by
    rw [Piece.scan_quoted _ (.inl rfl)]
    simp only [Quoted.scan, hbody]
  rw [toList_render_string, List.append_assoc, List.cons_append, List.append_assoc] at hrest
  rw [toList_render_string]
  exact reads_of_scan hrest hblanks hscan rfl

theorem reads_string {s : String} (hs : ∀ c ∈ s.toList, Text.isShown c = true)
    (hrest : l.rest = blanks ++ (ConstantValue.string s).render.toList ++ tail)
    (hblanks : ∀ b ∈ blanks, isBlank b = true) :
    l.Reads (.string s) (ConstantValue.string s).render.toList tail := by
  have hreads := reads_quoted s hrest hblanks
  rwa [(Text.reread_eq_self_iff s.toList).2 hs, String.ofList_toList] at hreads

end Lexer

/-- A string constant is written as one string token, in which every hidden character stands as
its escape. The token has the constant's value exactly if each character is printable ASCII, a
tab, a carriage return or a line feed. -/
theorem tokens_render_string (source : Nat) (name : Option String) (s : String) :
    ∃ t v, (Lexer.ofString source (Constant.mk name (.string s)).render).tokens = .ok [t] ∧
      t.kind = .string v ∧ t.lexeme = (Constant.mk name (.string s)).render ∧
      v = String.ofList (s.toList.flatMap Text.reread) ∧
      (v = s ↔ ∀ c ∈ s.toList, (' ' ≤ c ∧ c ≤ '~') ∨ c = '\t' ∨ c = '\r' ∨ c = '\n') := by
  have hrest : (Lexer.ofString source (ConstantValue.string s).render).rest =
      [] ++ (ConstantValue.string s).render.toList ++ [] := by
    rw [List.append_nil, List.nil_append]
    rfl
  obtain ⟨t, htokens, hkind, hlexeme⟩ := (Lexer.reads_quoted s hrest nofun).alone
  rw [String.ofList_toList] at hlexeme
  refine ⟨t, _, htokens, hkind, hlexeme, rfl, ?_⟩
  calc String.ofList (s.toList.flatMap Text.reread) = s
      ↔ s.toList.flatMap Text.reread = s.toList := by
        rw [← String.toList_inj, String.toList_ofList]
    _ ↔ ∀ c ∈ s.toList, Text.isShown c = true := Text.reread_eq_self_iff s.toList
    _ ↔ _ := by simp only [Text.isShown_iff]

end PirFrontend
