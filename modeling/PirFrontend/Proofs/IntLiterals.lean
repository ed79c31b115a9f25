import Mathlib.Data.Nat.Digits.Defs
import PirFrontend.Proofs.Literals

/-!
Int literals as whole texts. A sign and digits are one step of the scanner: the int that they
denote or, if there is no such int, one fault that covers them all. No digit is left for a token of
its own, and only a literal that spells bits is read modulo `2 ^ 64`.
-/
namespace PirFrontend

/-! Digit strings -/

namespace Text

/-- The digits of all bases in their order. -/
def glyphs : List Char :=
  ['0', '1', '2', '3', '4', '5', '6', '7', '8', '9', 'a', 'b', 'c', 'd', 'e', 'f']

/-- The place of a character among the digits, in either case. What is no digit comes behind all
of them. -/
def rank (c : Char) : Nat := glyphs.idxOf c.toLower

/-- The number that digits denote, the last of them with the lowest place. -/
def placeValue (base : Nat) (cs : List Char) : Nat := Nat.ofDigits base (cs.map rank).reverse

/-- The text is a non-empty string of digits of the base. -/
def IsNumeral (base : Nat) (cs : List Char) : Prop := cs ≠ [] ∧ ∀ c ∈ cs, rank c < base

instance (base : Nat) (cs : List Char) : Decidable (IsNumeral base cs) :=
  decidable_of_iff (cs ≠ [] ∧ cs.all (rank · < base) = true) (by simp [IsNumeral])

variable {base : Nat} {cs : List Char}

theorem digitValue?_ascii : ∀ n < 128, digitValue? (Char.ofNat n) =
    if rank (Char.ofNat n) < 16 then some (rank (Char.ofNat n)) else none := by
  decide

theorem rank_of_not_ascii {c : Char} (hc : 128 ≤ c.toNat) : rank c = 16 := by
  have hupper : ¬c ≤ 'Z' := by
    rw [Char.le_def, UInt32.le_iff_toNat_le]
    show ¬c.toNat ≤ 90
    omega
  have hlower : c.toLower = c := dif_neg fun h => hupper h.2
  have hglyphs : glyphs.all (·.toNat < 128) = true := by decide
  rw [rank, hlower, List.idxOf_eq_length]
  · rfl
  · intro hmem
    have hlt := of_decide_eq_true (List.all_eq_true.1 hglyphs c hmem)
    omega

theorem digitValue?_eq (c : Char) :
    digitValue? c = if rank c < 16 then some (rank c) else none := by
  by_cases hc : c.toNat < 128
  · have hascii := digitValue?_ascii c.toNat hc
    rwa [Char.ofNat_toNat] at hascii
  · have habove {d : Char} (hd : d.toNat < 128) : ¬c ≤ d := by
      rw [Char.le_def, UInt32.le_iff_toNat_le]
      show ¬c.toNat ≤ d.toNat
      omega
    have hnine := habove (d := '9') (by decide)
    have hlower := habove (d := 'f') (by decide)
    have hupper := habove (d := 'F') (by decide)
    rw [rank_of_not_ascii (by omega)]
    simp [digitValue?, hnine, hlower, hupper]

theorem placeValue_cons (base : Nat) (c : Char) (cs : List Char) :
    placeValue base (c :: cs) = rank c * base ^ cs.length + placeValue base cs := by
  unfold placeValue
  rw [List.map_cons, List.reverse_cons, Nat.ofDigits_append, Nat.ofDigits_singleton,
    List.length_reverse, List.length_map]
  ring

/-- What is read first is moved up by the places behind it. -/
theorem valueFrom_numeral (hbase : base ≤ 16) (h : ∀ c ∈ cs, rank c < base) (read : Nat) :
    valueFrom base read cs = some (read * base ^ cs.length + placeValue base cs) := by
  -- The number read so far grows with each digit, so it is general.
  induction cs generalizing read with
  | nil => simp [valueFrom, placeValue]
  | cons c cs ih =>
    have hc := h c List.mem_cons_self
    have hrest := ih (fun d hd => h d (List.mem_cons_of_mem c hd)) (read * base + rank c)
    rw [valueFrom, digitValue?_eq, if_pos (hc.trans_le hbase)]
    simp only [hc, if_true]
    rw [hrest, placeValue_cons, List.length_cons]
    congr 1
    ring

/-- One character that is no digit of the base spoils the whole string. -/
theorem valueFrom_spoiled {c : Char} (hc : c ∈ cs) (hrank : base ≤ rank c) (read : Nat) :
    valueFrom base read cs = none := by
  induction cs generalizing read with
  | nil => cases hc
  | cons d cs ih =>
    rw [valueFrom, digitValue?_eq]
    by_cases hd : rank d < 16
    · simp only [hd, if_true]
      obtain rfl | hc := List.mem_cons.1 hc
      · rw [if_neg (by omega)]
      · split
        · exact ih hc _
        · rfl
    · simp only [hd, if_false]

/-- The reader of digit strings reads just the digit strings, and each by the places of its
digits. -/
theorem value?_eq (hbase : base ≤ 16) (cs : List Char) :
    value? base cs = if IsNumeral base cs then some (placeValue base cs) else none := by
  cases cs with
  | nil => simp [value?, IsNumeral]
  | cons c cs =>
    show valueFrom base 0 (c :: cs) = _
    split
    next h => rw [valueFrom_numeral hbase h.2, Nat.zero_mul, Nat.zero_add]
    next h =>
      obtain ⟨d, hd, hrank⟩ : ∃ d ∈ c :: cs, base ≤ rank d := by
        by_contra hnone
        push Not at hnone
        exact h ⟨List.cons_ne_nil c cs, hnone⟩
      exact valueFrom_spoiled hd hrank 0

theorem rank_of_isDigit {c : Char} (hc : c.isDigit = true) : rank c < 10 := by
  have hdigits : ∀ n < 58, 48 ≤ n → rank (Char.ofNat n) < 10 := by decide
  simp only [Char.isDigit, Bool.and_eq_true, decide_eq_true_eq, ge_iff_le,
    UInt32.le_iff_toNat_le] at hc
  have hlt : c.toNat < 58 := Nat.lt_succ_of_le hc.2
  have hrank := hdigits c.toNat hlt hc.1
  rwa [Char.ofNat_toNat] at hrank

end Text

/-! Signed values -/

namespace Numeral

/-- The sign in front of a literal. -/
def minus (negative : Bool) : List Char := if negative then ['-'] else []

/-- The number behind the sign. -/
def signed (negative : Bool) (n : Nat) : Int := if negative then -n else n

/-- There is an int of this value. -/
def InRange (value : Int) : Prop :=
  Int64.minValue.toInt ≤ value ∧ value ≤ Int64.maxValue.toInt

instance (value : Int) : Decidable (InRange value) := inferInstanceAs (Decidable (_ ∧ _))

theorem inRange_iff (value : Int) :
    InRange value ↔ -9223372036854775808 ≤ value ∧ value < 9223372036854775808 := by
  unfold InRange
  rw [Int64.toInt_minValue, Int64.toInt_maxValue]
  omega

theorem int?_eq (negative : Bool) (n : Nat) : int? negative n =
    if InRange (signed negative n) then some (Int64.ofInt (signed negative n)) else none := by
  have hpow : Nat.pow 2 63 = 9223372036854775808 := by decide
  cases negative with
  | true =>
    have hbound : n ≤ Nat.pow 2 63 ↔ InRange (-n) := by
      rw [inRange_iff]
      omega
    simp only [int?, signed, if_true]
    exact if_congr hbound rfl rfl
  | false =>
    have hbound : n < Nat.pow 2 63 ↔ InRange n := by
      rw [inRange_iff]
      omega
    simp only [int?, signed, Bool.false_eq_true, if_false]
    exact if_congr hbound rfl rfl

theorem toInt_ofInt_inRange {value : Int} (h : InRange value) :
    (Int64.ofInt value).toInt = value := by
  obtain ⟨hlow, hhigh⟩ := (inRange_iff value).1 h
  exact Int64.toInt_ofInt_of_le hlow hhigh

/-- Bits are read as the int that has them, and a sign negates it modulo `2 ^ 64`. -/
theorem bits?_eq (negative : Bool) (n : Nat) : bits? negative n =
    if n < UInt64.size then some (Int64.ofInt (signed negative n)) else none := by
  have hvalue : (UInt64.ofNat n).toInt64 = Int64.ofInt n := by
    rw [UInt64.toInt64_ofNat', Int64.ofInt_eq_ofNat]
  unfold bits?
  rw [hvalue]
  cases negative with
  | true => rw [signed, if_pos rfl, Int64.ofInt_neg]; rfl
  | false => rfl

variable {negative : Bool} {body : List Char}

theorem isEmpty_minus (negative : Bool) : (!(minus negative).isEmpty) = negative := by
  cases negative <;> rfl

theorem sign_minus (h : Stops (· == '-') body) :
    sign (minus negative ++ body) = (minus negative, body) := by
  cases negative with
  | true => rfl
  | false => exact sign_of_stops h

theorem starts_minus {d : Char} (hd : d.isDigit = true) :
    starts true (minus negative ++ d :: body) = true := by
  cases negative with
  | true => simp [starts, minus, hd]
  | false => simp [starts, minus, hd]

theorem stops_minus {d : Char} (hd : d.isDigit = true) : Stops (· == '-') (d :: body) := by
  rintro _ ⟨⟩
  apply beq_false_of_ne
  rintro rfl
  cases hd

/-- Digits alone are read to the last one. -/
theorem scan_whole_decimal {ds : List Char} (hne : ds ≠ []) (hds : ∀ c ∈ ds, c.isDigit = true) :
    scan (minus negative ++ ds) =
      piece (((Text.value? 10 ds).bind (int? negative)).map .int) (minus negative ++ ds) [] := by
  have hsign : sign (minus negative ++ ds) = (minus negative, ds ++ []) := by
    obtain ⟨d, ds, rfl⟩ := List.exists_cons_of_ne_nil hne
    rw [List.append_nil]
    exact sign_minus (stops_minus (hds d List.mem_cons_self))
  rw [scan_digits hsign hds .nil]
  simp only [decimalKind?, List.isEmpty_nil, Bool.and_self, if_true, isEmpty_minus]

/-- The letters that choose a base, in either case. -/
def bases : List (Char × Nat) := [('x', 16), ('X', 16), ('b', 2), ('B', 2)]

theorem base?_of_mem {x : Char} {base : Nat} (h : (x, base) ∈ bases) :
    base? x = some base ∧ base ≤ 16 := by
  simp only [bases, List.mem_cons, Prod.mk.injEq, List.not_mem_nil, or_false] at h
  obtain ⟨rfl, rfl⟩ | ⟨rfl, rfl⟩ | ⟨rfl, rfl⟩ | ⟨rfl, rfl⟩ := h <;> decide

/-- Behind a base letter everything that can stand in a word is read. -/
theorem scan_whole_based {x : Char} {base : Nat} {run : List Char} (hbase : base? x = some base)
    (hrun : ∀ c ∈ run, isWordChar c = true) : scan (minus negative ++ '0' :: x :: run) =
      piece (((Text.value? base run).bind (bits? negative)).map .int)
        (minus negative ++ '0' :: x :: run) [] := by
  have hsign : sign (minus negative ++ '0' :: x :: run) = (minus negative, '0' :: x :: run) :=
    sign_minus (stops_minus rfl)
  have hradix : radix? ('0' :: x :: run) = some (base, x, run) := by
    rw [radix?, hbase]
    rfl
  have hstops : Stops isWordChar [] := Separated.nil.stops (by decide)
  have htake := hstops.takeWhile hrun
  have hdrop := hstops.dropWhile hrun
  rw [List.append_nil] at htake hdrop
  rw [scan_based hsign hradix, htake, hdrop, basedKind?, isEmpty_minus]

end Numeral

/-! Texts that are one literal -/

namespace Lexer

/-- The bytes of the whole text, as far as a span can count them. -/
def wholeSpan (source : Nat) (text : String) : Span :=
  ⟨source, 0, min (byteSize text.toList) maxOffset, 1⟩

/-- The scanner makes one step of the text, the int `v`. -/
def ScansInt (source : Nat) (text : String) (v : Int64) : Prop :=
  (ofString source text).steps = [.ok ⟨.int v, text, wholeSpan source text⟩]

/-- The scanner makes one step of the text, a malformed number. -/
def ScansMalformed (source : Nat) (text : String) : Prop :=
  (ofString source text).steps =
    [.error ⟨.malformedNumber, s!"malformed number '{text}'", wholeSpan source text⟩]

theorem between_whole (source : Nat) (cs : List Char) :
    Span.between source 0 (0 + byteSize cs) 1 = wholeSpan source (String.ofList cs) := by
  simp [Span.between, wholeSpan, String.toList_ofList]

/-- A number begins with no blank and no comment. -/
theorem not_trivia_of_starts {c : Char} {v : List Char} {signAllowed : Bool}
    (h : Numeral.starts signAllowed (c :: v) = true) : isBlank c = false ∧ c ≠ '#' := by
  simp only [Numeral.starts, Bool.or_eq_true, Bool.and_eq_true, beq_iff_eq] at h
  obtain hdigit | ⟨⟨-, rfl⟩, -⟩ := h
  · have hne {d : Char} (hd : d.isDigit = false) : c ≠ d := by
      rintro rfl
      rw [hd] at hdigit
      cases hdigit
    have hblank : ¬isBlank c = true := by
      simp only [isBlank, Bool.or_eq_true, beq_iff_eq, not_or]
      exact ⟨⟨⟨hne rfl, hne rfl⟩, hne rfl⟩, hne rfl⟩
    exact ⟨Bool.eq_false_iff.2 hblank, hne rfl⟩
  · decide

/-- A number that is the whole text is the only step. -/
theorem steps_of_number {source : Nat} {cs : List Char} {kind : Option TokenKind}
    (hstarts : Numeral.starts true cs = true)
    (hscan : Numeral.scan cs = Numeral.piece kind cs []) :
    (ofString source (String.ofList cs)).steps = [match kind with
      | some kind => .ok ⟨kind, String.ofList cs, wholeSpan source (String.ofList cs)⟩
      | none => .error ⟨.malformedNumber, s!"malformed number '{String.ofList cs}'",
          wholeSpan source (String.ofList cs)⟩] := by
  obtain ⟨c, v, rfl⟩ : ∃ c v, cs = c :: v := by
    cases cs with
    | nil => cases hstarts
    | cons c v => exact ⟨c, v, rfl⟩
  obtain ⟨hblank, hcomment⟩ := not_trivia_of_starts hstarts
  have hblanks : ∀ b ∈ ([] : List Char), isBlank b = true := nofun
  have hsplit : splitTrivia (ofString source (String.ofList (c :: v))).rest = ([], c :: v) := by
    rw [show (ofString source (String.ofList (c :: v))).rest = c :: v from String.toList_ofList]
    exact splitTrivia_blanks hblanks hblank hcomment v
  have hnext : (ofString source (String.ofList (c :: v))).next =
      ((ofString source (String.ofList (c :: v))).pass [] (c :: v)).take
        (Numeral.piece kind (c :: v) []) := by
    rw [next_eq, hsplit, ← hscan, ← Piece.scan_number hstarts]
    rfl
  have hrest := rest_take ((ofString source (String.ofList (c :: v))).pass [] (c :: v))
    (Numeral.piece kind (c :: v) [])
  rw [Numeral.piece_rest] at hrest
  rw [steps_step?, hnext, ← between_whole]
  cases kind with
  | some kind => exact congrArg _ (steps_of_rest_nil hrest)
  | none => exact congrArg _ (steps_of_rest_nil hrest)

variable {source : Nat} {cs : List Char}

theorem scansInt_of_piece {value : Option Int64} {v : Int64}
    (hstarts : Numeral.starts true cs = true)
    (hscan : Numeral.scan cs = Numeral.piece (value.map .int) cs []) (hvalue : value = some v) :
    ScansInt source (String.ofList cs) v := by
  subst hvalue
  exact steps_of_number hstarts hscan

theorem scansMalformed_of_piece {value : Option Int64}
    (hstarts : Numeral.starts true cs = true)
    (hscan : Numeral.scan cs = Numeral.piece (value.map .int) cs []) (hvalue : value = none) :
    ScansMalformed source (String.ofList cs) := by
  subst hvalue
  exact steps_of_number hstarts hscan

open Numeral Text in
/-- Digits behind an optional sign are one int of that value where there is one, and one malformed
number otherwise. A base letter with whatever word stands behind it is one int if that word is a
number of the base below `2 ^ 64`, namely the int with these bits, negated modulo `2 ^ 64` behind
a sign; otherwise it is one malformed number. -/
theorem steps_int_literal (source : Nat) (negative : Bool) :
    (∀ ds : List Char, ds ≠ [] → (∀ c ∈ ds, c.isDigit = true) →
      let text := String.ofList (minus negative ++ ds)
      let value := signed negative (placeValue 10 ds)
      (InRange value → ∃ v : Int64, v.toInt = value ∧ ScansInt source text v) ∧
      (¬InRange value → ScansMalformed source text)) ∧
    (∀ (x : Char) (base : Nat) (run : List Char), (x, base) ∈ bases →
      (∀ c ∈ run, isWordChar c = true) →
      let text := String.ofList (minus negative ++ '0' :: x :: run)
      (IsNumeral base run ∧ placeValue base run < UInt64.size →
        ∃ v : Int64, v.toInt = (signed negative (placeValue base run)).bmod UInt64.size ∧
          ScansInt source text v) ∧
      (¬(IsNumeral base run ∧ placeValue base run < UInt64.size) →
        ScansMalformed source text)) := by
  constructor
  · intro ds hne hds text value
    have hstarts : starts true (minus negative ++ ds) = true := by
      obtain ⟨d, ds, rfl⟩ := List.exists_cons_of_ne_nil hne
      exact starts_minus (hds d List.mem_cons_self)
    have hread : (value? 10 ds).bind (int? negative) =
        if InRange value then some (Int64.ofInt value) else none := by
      have hnumeral : IsNumeral 10 ds := ⟨hne, fun c hc => rank_of_isDigit (hds c hc)⟩
      rw [value?_eq (by decide), if_pos hnumeral, Option.bind_some, int?_eq]
    constructor
    · intro hrange
      refine ⟨Int64.ofInt value, toInt_ofInt_inRange hrange, ?_⟩
      exact scansInt_of_piece hstarts (scan_whole_decimal hne hds) (hread.trans (if_pos hrange))
    · intro hrange
      exact scansMalformed_of_piece hstarts (scan_whole_decimal hne hds)
        (hread.trans (if_neg hrange))
  · intro x base run hx hrun text
    obtain ⟨hbase, hle⟩ := base?_of_mem hx
    have hstarts : starts true (minus negative ++ '0' :: x :: run) = true := starts_minus rfl
    have hread := value?_eq hle run
    constructor
    · rintro ⟨hnumeral, hsize⟩
      refine ⟨Int64.ofInt _, Int64.toInt_ofInt, ?_⟩
      apply scansInt_of_piece hstarts (scan_whole_based hbase hrun)
      rw [hread, if_pos hnumeral, Option.bind_some, bits?_eq, if_pos hsize]
    · intro hnot
      apply scansMalformed_of_piece hstarts (scan_whole_based hbase hrun)
      rw [hread]
      split
      next hnumeral =>
        rw [Option.bind_some, bits?_eq, if_neg fun hsize => hnot ⟨hnumeral, hsize⟩]
      next => rfl

open Numeral Text in
/-- The least int, the first number above the greatest one, all bits behind a sign, and a digit that
the base does not have. -/
theorem steps_int_literal_edges :
    (∃ v : Int64, v.toInt = -9223372036854775808 ∧ ScansInt 0 "-9223372036854775808" v) ∧
    ScansMalformed 0 "9223372036854775808" ∧
    (∃ v : Int64, v.toInt = 1 ∧ ScansInt 0 "-0xFFFFffffFFFFffff" v) ∧
    ScansMalformed 0 "0b12" := by
  have hdigits := List.all_eq_true.1 (show "9223372036854775808".toList.all (·.isDigit) by decide)
  have hword := List.all_eq_true.1 (show "FFFFffffFFFFffff".toList.all isWordChar by decide)
  have hmixed := List.all_eq_true.1 (show "12".toList.all isWordChar by decide)
  have hbits : IsNumeral 16 "FFFFffffFFFFffff".toList ∧
      placeValue 16 "FFFFffffFFFFffff".toList < UInt64.size := by decide
  refine ⟨?_, ?_, ?_, ?_⟩
  · exact ((steps_int_literal 0 true).1 _ (by decide) hdigits).1 (by decide)
  · exact ((steps_int_literal 0 false).1 _ (by decide) hdigits).2 (by decide)
  · exact ((steps_int_literal 0 true).2 'x' 16 _ (by decide) hword).1 hbits
  · exact ((steps_int_literal 0 false).2 'b' 2 _ (by decide) hmixed).2 (by decide)

end Lexer
end PirFrontend
