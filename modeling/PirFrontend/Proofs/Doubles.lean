import Mathlib
import PirFrontend.Value.Constant

/-!
Ints as nums. The double of an int has 53 significant bits; what is cut off decides the last of
them. Rounding keeps the order of two ints, though it may make them equal. The order of two
doubles is a partial one: swapped operands compare the other way round, and an undefined number
compares with nothing.
-/
namespace PirFrontend
namespace Double

open Float.Model Float.Model.UnpackedFloat

/-! The order of doubles -/

theorem compare_swap (a b : UnpackedFloat) : b.compare a = (a.compare b).map Ordering.swap := by
  have hsign (s t : Sign) : compare s t = (compare t s).swap := by
    cases s <;> cases t <;> rfl
  have hlex (m n : Nat) (e f : Int) :
      (compare f e).then (compare n m) = ((compare e f).then (compare m n)).swap := by
    rw [Ordering.swap_then, Int.compare_swap, Nat.compare_swap]
  -- Only two finite numbers are compared by exponent and mantissa; else the kinds and signs decide.
  cases a with
  | infinity s =>
    cases b with
    | infinity t => exact congrArg some (hsign t s)
    | notANumber => cases s <;> rfl
    | zero t => cases s <;> rfl
    | finite t => cases s <;> cases t <;> rfl
  | notANumber => cases b <;> simp [UnpackedFloat.compare]
  | zero s =>
    cases b with
    | infinity t => cases t <;> rfl
    | notANumber => rfl
    | zero t => rfl
    | finite t => cases t <;> rfl
  | finite s m e =>
    cases b with
    | infinity t => cases s <;> cases t <;> rfl
    | notANumber => cases s <;> rfl
    | zero t => cases s <;> rfl
    | finite t n f => cases s <;> cases t <;> simp [UnpackedFloat.compare, hlex m n e f]

/-! Rounding -/

/-- `m / 2 ^ s` rounded to the nearest, and a tie to the even neighbour. -/
def nearest (m s : Nat) : Nat :=
  if 2 * (m % 2 ^ s) < 2 ^ s then m / 2 ^ s
  else if 2 * (m % 2 ^ s) = 2 ^ s then m / 2 ^ s + m / 2 ^ s % 2
  else m / 2 ^ s + 1

theorem nearest_zero (m : Nat) : nearest m 0 = m := by
  simp [nearest, Nat.mod_one]

theorem nearest_bounds (m s : Nat) : m / 2 ^ s ≤ nearest m s ∧ nearest m s ≤ m / 2 ^ s + 1 := by
  unfold nearest
  split
  · omega
  · split <;> omega

theorem nearest_mono {m n : Nat} (s : Nat) (h : m ≤ n) : nearest m s ≤ nearest n s := by
  have hm := nearest_bounds m s
  have hn := nearest_bounds n s
  have hq : m / 2 ^ s ≤ n / 2 ^ s := Nat.div_le_div_right h
  by_cases heq : m / 2 ^ s = n / 2 ^ s
  · -- With equal quotients the remainders are ordered as the numbers are.
    have hr : m % 2 ^ s ≤ n % 2 ^ s := by
      have := Nat.div_add_mod m (2 ^ s)
      have := Nat.div_add_mod n (2 ^ s)
      rw [heq] at *
      omega
    unfold nearest
    rw [heq]
    split <;> split <;> (try split) <;> (try split) <;> omega
  · omega

/-- A bit that is zero may be cut off first. -/
theorem nearest_mul_two_pow (m s k : Nat) : nearest (m * 2 ^ k) (s + k) = nearest m s := by
  have hpos : 0 < 2 ^ k := Nat.two_pow_pos k
  have hdiv : m * 2 ^ k / 2 ^ (s + k) = m / 2 ^ s := by
    rw [Nat.pow_add, Nat.mul_div_mul_right _ _ hpos]
  have hmod : m * 2 ^ k % 2 ^ (s + k) = m % 2 ^ s * 2 ^ k := by
    rw [Nat.pow_add, Nat.mul_mod_mul_right]
  unfold nearest
  rw [hdiv, hmod, Nat.pow_add, ← Nat.mul_assoc]
  simp only [Nat.mul_lt_mul_right hpos, Nat.mul_left_inj (Nat.ne_of_gt hpos)]

/-- What is left of a mantissa after some shifts: the bits that stay, the last bit cut off, and
whether any bit behind that was set. -/
theorem shiftRight_exact (m s : Nat) : (⟨m, false, false⟩ : ExtendedMantissa) >>> s =
    ⟨m / 2 ^ s, decide (2 ^ s ≤ 2 * (m % 2 ^ s)), 2 * (m % 2 ^ s) % 2 ^ s != 0⟩ := by
  induction s with
  | zero => simp [HShiftRight.hShiftRight, Nat.repeat, Nat.mod_one]
  | succ s ih =>
    have hstep : (⟨m, false, false⟩ : ExtendedMantissa) >>> (s + 1) =
        ((⟨m, false, false⟩ : ExtendedMantissa) >>> s).shiftRightOne := rfl
    have hmod : m % 2 ^ (s + 1) = m % 2 ^ s + 2 ^ s * (m / 2 ^ s % 2) := by
      rw [Nat.pow_succ, Nat.mod_mul]
    have hlt : m % 2 ^ s < 2 ^ s := Nat.mod_lt _ (Nat.two_pow_pos s)
    have hdiv : m / 2 ^ s / 2 = m / 2 ^ (s + 1) := by
      rw [Nat.div_div_eq_div_mul, Nat.pow_succ]
    -- The bit cut off now, then the bits cut off so far.
    have hround : (m / 2 ^ s % 2 != 0) = decide (2 ^ (s + 1) ≤ 2 * (m % 2 ^ (s + 1))) := by
      rw [hmod, Nat.pow_succ]
      rcases Nat.mod_two_eq_zero_or_one (m / 2 ^ s) with h | h <;> simp [h] <;> omega
    have hsticky : (decide (2 ^ s ≤ 2 * (m % 2 ^ s)) || 2 * (m % 2 ^ s) % 2 ^ s != 0) =
        (2 * (m % 2 ^ (s + 1)) % 2 ^ (s + 1) != 0) := by
      have hlow : 2 * (m % 2 ^ (s + 1)) % 2 ^ (s + 1) = 2 * (m % 2 ^ s) := by
        rw [Nat.pow_succ, Nat.mul_comm (2 ^ s), Nat.mul_mod_mul_left, Nat.mod_mul_left_mod]
      rw [hlow]
      by_cases h : 2 ^ s ≤ 2 * (m % 2 ^ s)
      · have hne : 2 * (m % 2 ^ s) ≠ 0 := by omega
        simp [h, hne]
      · rw [Nat.mod_eq_of_lt (Nat.lt_of_not_le h)]
        simp [h]
    rw [hstep, ih]
    simp only [ExtendedMantissa.shiftRightOne, hdiv, hround, hsticky]

theorem roundedMantissa_mk (m : Nat) (round sticky : Bool) :
    (⟨m, round, sticky⟩ : ExtendedMantissa).roundedMantissa =
      if round then (if sticky then m + 1 else m + m % 2) else m := by
  cases round <;> cases sticky <;> rfl

theorem roundedMantissa_shiftRight (m s : Nat) :
    ((⟨m, false, false⟩ : ExtendedMantissa) >>> s).roundedMantissa = nearest m s := by
  have hlt : m % 2 ^ s < 2 ^ s := Nat.mod_lt _ (Nat.two_pow_pos s)
  rw [shiftRight_exact, roundedMantissa_mk, nearest]
  by_cases hround : 2 ^ s ≤ 2 * (m % 2 ^ s)
  · -- Half a unit or more was cut off, and exactly half when nothing is left of it.
    have hrest : 2 * (m % 2 ^ s) % 2 ^ s = 2 * (m % 2 ^ s) - 2 ^ s := by
      rw [Nat.mod_eq_sub_mod hround, Nat.mod_eq_of_lt (by omega)]
    have hnot : ¬ 2 * (m % 2 ^ s) < 2 ^ s := Nat.not_lt.mpr hround
    rw [hrest, if_pos (decide_eq_true hround), if_neg hnot]
    by_cases htie : 2 * (m % 2 ^ s) = 2 ^ s
    · simp [htie]
    · rw [if_pos (bne_iff_ne.mpr (by omega)), if_neg htie]
  · rw [if_neg (by simpa using hround), if_pos (Nat.lt_of_not_le hround)]

/-- A number with a mantissa of 53 bits, or of one unit more. -/
def settle (sign : Sign) (m : Nat) (e : Int) : UnpackedFloat :=
  if h : 0 < m ∧ m < 2 ^ 53 then .finite sign m e h.1
  else .finite sign (2 ^ 52) (e + 1) (by decide)

theorem log2_eq {m k : Nat} (hle : 2 ^ k ≤ m) (hlt : m < 2 ^ (k + 1)) : m.log2 = k := by
  have hne : m ≠ 0 := Nat.ne_of_gt (Nat.lt_of_lt_of_le (Nat.two_pow_pos k) hle)
  have hlow : k ≤ m.log2 := (Nat.le_log2 hne).mpr hle
  have hhigh : m.log2 < k + 1 := (Nat.log2_lt hne).mpr hlt
  omega

/-- The leading bits of a number that is long enough, rounded. -/
theorem nearest_significant {m s : Nat} (hm : m.log2 = 52 + s) (hne : m ≠ 0) :
    2 ^ 52 ≤ nearest m s ∧ nearest m s ≤ 2 ^ 53 := by
  have hpos : 0 < 2 ^ s := Nat.two_pow_pos s
  have hlow : 2 ^ 52 ≤ m / 2 ^ s := by
    rw [Nat.le_div_iff_mul_le hpos, ← Nat.pow_add, ← hm]
    exact Nat.log2_self_le hne
  have hhigh : m / 2 ^ s < 2 ^ 53 := by
    rw [Nat.div_lt_iff_lt_mul hpos, ← Nat.pow_add, show 53 + s = m.log2 + 1 by omega]
    exact Nat.lt_log2_self
  have := nearest_bounds m s
  omega

theorem targetExponent_eq {m : Nat} {e : Int} {s : Nat} (hm : m.log2 = 52 + s) (he : -1074 ≤ e) :
    Format.binary64.targetExponent (totalExponent m e) = e + s := by
  have hmin : Format.binary64.minExponent = -1074 := rfl
  have hbits : Format.binary64.mantissaBits = 53 := rfl
  rw [Format.targetExponent, totalExponent, hmin, hbits, hm]
  omega

theorem shiftToTargetExponent_eq {m s : Nat} {e : Int} (hm : m.log2 = 52 + s) (he : -1074 ≤ e) :
    shiftToTargetExponent .binary64 m e .exact =
      ((⟨m, false, false⟩ : ExtendedMantissa) >>> s, e + s) := by
  have hamount : (e + s - e).toNat = s := by omega
  rw [shiftToTargetExponent, targetExponent_eq hm he, shiftToExponent, hamount]
  rfl

/-- A mantissa that is long enough is rounded to 53 bits. -/
theorem roundWithAccuracy_eq {m s : Nat} {e : Int} (sign : Sign) (hne : m ≠ 0)
    (hm : m.log2 = 52 + s) (he : -1074 ≤ e) :
    roundWithAccuracy .binary64 sign m e .exact = settle sign (nearest m s) (e + s) := by
  have hbounds := nearest_significant hm hne
  rw [roundWithAccuracy, shiftToTargetExponent_eq hm he]
  simp only [roundedMantissa_shiftRight]
  by_cases hlt : nearest m s < 2 ^ 53
  · have hlog : (nearest m s).log2 = 52 + 0 := log2_eq hbounds.1 hlt
    have hpos : nearest m s ≠ 0 := by omega
    simp [-Nat.reducePow, shiftToTargetExponent_eq hlog (e := e + s) (by omega), settle,
      shiftRight_exact, hpos, hlt, Nat.pos_of_ne_zero hpos]
  · -- Rounded up to the next power of two, the mantissa is one bit too long.
    have hcarry : nearest m s = 2 ^ 53 := by omega
    have hlog : (2 ^ 53 : Nat).log2 = 52 + 1 := by decide
    have hhalf : (2 ^ 53 : Nat) / 2 = 2 ^ 52 := by decide
    simp [-Nat.reducePow, hcarry, shiftToTargetExponent_eq hlog (e := e + s) (by omega), settle,
      shiftRight_exact, hhalf]

theorem unpackSign_packComponents {spec : Format} (sign : Sign)
    (exponent : BitVec spec.exponentBits) (mantissa : BitVec spec.mantissaBitsWithoutImplicit) :
    Sign.ofBitVec (unpackSign (packComponents spec sign exponent mantissa)) = sign := by
  have hsign : unpackSign (packComponents spec sign exponent mantissa) = sign.toBitVec := by
    ext i hi
    obtain rfl : i = 0 := by omega
    simp [unpackSign, packComponents, BitVec.getLsbD_append, BitVec.getElem_append]
  rw [hsign]
  cases sign <;> rfl

theorem unpack_pack_finite {m : Nat} {e : Int} (sign : Sign) (hpos : 0 < m) (hm : 2 ^ 52 ≤ m)
    (hm' : m < 2 ^ 53) (he : -1074 ≤ e) (he' : e ≤ 971) :
    (Float.Model.pack (.finite sign m e hpos)).unpack = .finite sign m e hpos := by
  -- The exponent as it is stored, which is neither of the two that mark special values.
  obtain ⟨b, hb⟩ : ∃ b : Nat, e + 1075 = b := ⟨(e + 1075).toNat, by omega⟩
  have hbias : (e + Format.binary64.exponentBias + (52 : Nat)).toNat = b := by
    rw [show Format.binary64.exponentBias = 1023 from rfl]
    omega
  have hlog : m.log2 = 52 := log2_eq hm hm'
  have hexp : (BitVec.ofNat 11 b).toNat = b := Nat.mod_eq_of_lt (by omega)
  have hnot : BitVec.ofNat 11 b ≠ -1#11 ∧ BitVec.ofNat 11 b ≠ 0#11 := by
    refine ⟨fun h => ?_, fun h => ?_⟩ <;> rw [h] at hexp
    · exact absurd hexp (by simp; omega)
    · exact absurd hexp (by simp; omega)
  have hmant : (1#1 ++ BitVec.ofNat 52 m).toNat = m := by
    rw [BitVec.toNat_append, ← Nat.shiftLeft_add_eq_or_of_lt (BitVec.ofNat 52 m).isLt]
    simp only [BitVec.toNat_ofNat, Nat.shiftLeft_eq]
    omega
  have hpack : UnpackedFloat.pack .binary64 (.finite sign m e hpos) =
      packComponents .binary64 sign (BitVec.ofNat 11 b) (BitVec.ofNat 52 m) := by
    simp only [UnpackedFloat.pack, hlog]
    rw [hbias, if_neg (by omega), if_pos (by decide)]
  show UnpackedFloat.unpack .binary64 (UnpackedFloat.pack .binary64 _) = _
  rw [hpack, UnpackedFloat.unpack]
  simp only [unpackMantissa_packComponents, unpackExponent_packComponents,
    unpackSign_packComponents]
  rw [if_neg hnot.1, if_neg hnot.2]
  simp [hmant, hexp, show Format.binary64.exponentBias = 1023 from rfl]
  omega

theorem unpack_pack_settle {m : Nat} {e : Int} (sign : Sign) (hm : 2 ^ 52 ≤ m) (hm' : m ≤ 2 ^ 53)
    (he : -1074 ≤ e) (he' : e ≤ 970) :
    (Float.Model.pack (settle sign m e)).unpack = settle sign m e := by
  unfold settle
  split
  · exact unpack_pack_finite sign _ hm (by omega) he (by omega)
  · exact unpack_pack_finite sign _ (by decide) (by decide) (by omega) (by omega)

/-! Ints -/

/-- The 53 leading bits of a number, rounded. -/
def significand (n : Nat) : Nat := nearest (n * 2 ^ (52 - n.log2)) (n.log2 - 52)

theorem log2_mul_two_pow {n : Nat} (hn : n ≠ 0) (k : Nat) : (n * 2 ^ k).log2 = n.log2 + k := by
  apply log2_eq
  · rw [Nat.pow_add]
    exact Nat.mul_le_mul_right _ (Nat.log2_self_le hn)
  · rw [show n.log2 + k + 1 = n.log2 + 1 + k by omega, Nat.pow_add]
    exact Nat.mul_lt_mul_of_pos_right Nat.lt_log2_self (Nat.two_pow_pos k)

theorem significand_bounds {n : Nat} (hn : n ≠ 0) :
    2 ^ 52 ≤ significand n ∧ significand n ≤ 2 ^ 53 := by
  apply nearest_significant
  · rw [log2_mul_two_pow hn]
    omega
  · exact Nat.mul_ne_zero hn (Nat.ne_of_gt (Nat.two_pow_pos _))

theorem round_eq {n : Nat} (hn : n ≠ 0) :
    round .binary64 .positive n 0 = settle .positive (significand n) (n.log2 - 52) := by
  have htarget : Format.binary64.targetExponent (totalExponent n 0) = n.log2 - 52 := by
    have hmin : Format.binary64.minExponent = -1074 := rfl
    have hbits : Format.binary64.mantissaBits = 53 := rfl
    rw [Format.targetExponent, totalExponent, hmin, hbits]
    omega
  have hamount : (0 - ((n.log2 : Int) - 52)).toNat = 52 - n.log2 := by omega
  have hlog : (n * 2 ^ (52 - n.log2)).log2 = 52 + (n.log2 - 52) := by
    rw [log2_mul_two_pow hn]
    omega
  have hne : n * 2 ^ (52 - n.log2) ≠ 0 := Nat.mul_ne_zero hn (Nat.ne_of_gt (Nat.two_pow_pos _))
  simp only [UnpackedFloat.round, decreaseExponent, htarget, hamount, Nat.shiftLeft_eq]
  rw [roundWithAccuracy_eq _ hne hlog (by omega), significand]
  congr 1
  omega

theorem unpack_ofUInt64 {n : Nat} (hn : n ≠ 0) (hlt : n < 2 ^ 64) :
    n.toUInt64.toFloat.toModel.unpack = settle .positive (significand n) (n.log2 - 52) := by
  have hlog : n.log2 < 64 := (Nat.log2_lt hn).mpr hlt
  have hbounds := significand_bounds hn
  have hval : n.toUInt64.toNat = n := Nat.mod_eq_of_lt hlt
  have hmodel : n.toUInt64.toFloat.toModel =
      Float.Model.pack (settle .positive (significand n) (n.log2 - 52)) := by
    have hpos : compare (n : Int) 0 = .gt := by
      rw [Int.compare_eq_gt]
      omega
    show Float.Model.pack (normalize .binary64 n.toUInt64.toNat 0 .positive) = _
    rw [hval, UnpackedFloat.normalize, hpos]
    simp only [Int.toNat_natCast, round_eq hn]
  rw [hmodel, unpack_pack_settle _ hbounds.1 hbounds.2 (by omega) (by omega)]

/-- A number below `2 ^ 53` has room for all its bits. -/
theorem significand_exact {n : Nat} (hn : n ≠ 0) (hlt : n < 2 ^ 53) :
    significand n = n * 2 ^ (52 - n.log2) ∧ significand n < 2 ^ 53 := by
  have hlog : n.log2 < 53 := (Nat.log2_lt hn).mpr hlt
  have heq : significand n = n * 2 ^ (52 - n.log2) := by
    rw [significand, show n.log2 - 52 = 0 by omega, nearest_zero]
  refine ⟨heq, ?_⟩
  calc significand n = n * 2 ^ (52 - n.log2) := heq
    _ < 2 ^ (n.log2 + 1) * 2 ^ (52 - n.log2) :=
      Nat.mul_lt_mul_of_pos_right Nat.lt_log2_self (Nat.two_pow_pos _)
    _ = 2 ^ 53 := by rw [← Nat.pow_add, show n.log2 + 1 + (52 - n.log2) = 53 by omega]

theorem mul_finite (spec : Format) (s t : Sign) (m n : Nat) (e f : Int) (hm : 0 < m)
    (hn : 0 < n) : UnpackedFloat.mul spec (.finite s m e hm) (.finite t n f hn) =
      roundWithAccuracy spec (s * t) (m * n) (e + f) .exact :=
  rfl

theorem ofScientific_eq {n : Nat} (hn : n ≠ 0) : UnpackedFloat.ofScientific .binary64 n 0 =
    roundWithAccuracy .binary64 .positive (n * 2 ^ 53) (-53) .exact := by
  have hexponents : (2 : Int) ^ Format.binary64.exponentBits = 2048 := rfl
  have hbits : Format.binary64.mantissaBits = 53 := rfl
  have hsign : Sign.positive * Sign.positive = .positive := rfl
  rw [UnpackedFloat.ofScientific, dif_neg hn, if_neg (by decide), if_neg (by omega),
    if_pos (by decide), mul_finite, hsign, hbits, Nat.shiftLeft_eq]
  simp

theorem ofNat_eq (n : Nat) : Float.ofNat n = Float.ofScientific n false 0 := rfl

/-- A number below `2 ^ 53` is multiplied by a power of ten that is one. -/
theorem unpack_ofNat_of_lt {n : Nat} (hn : n ≠ 0) (hsmall : n < 2 ^ 53) :
    (Float.ofNat n).toModel.unpack = settle .positive (significand n) (n.log2 - 52) := by
  have hbounds := significand_bounds hn
  have hexact := significand_exact hn hsmall
  have hlog : n.log2 < 53 := (Nat.log2_lt hn).mpr hsmall
  have hone : Float.exactlyRepresentablePowersOfTen[0].toModel.unpack =
    .finite .positive (2 ^ 52) (-52) (by decide) := by rfl
  have hfinite : settle .positive (significand n) (n.log2 - 52) =
      .finite .positive (significand n) (n.log2 - 52) (by omega) :=
    dif_pos ⟨by omega, hexact.2⟩
  have hproduct : (significand n * 2 ^ 52).log2 = 52 + 52 := by
    rw [log2_mul_two_pow (by omega), log2_eq hbounds.1 hexact.2]
  have hnearest : nearest (significand n * 2 ^ 52) 52 = significand n := by
    simpa [nearest_zero] using nearest_mul_two_pow (significand n) 0 52
  rw [ofNat_eq, Float.ofScientific, dif_pos ⟨hsmall, by decide⟩]
  show (Float.Model.pack (UnpackedFloat.mul .binary64 _ _)).unpack = _
  rw [unpack_ofUInt64 hn (by omega), hone, hfinite, mul_finite,
    roundWithAccuracy_eq _ (by omega) hproduct (by omega), hnearest,
    unpack_pack_settle _ hbounds.1 hbounds.2 (by omega) (by omega), ← hfinite]
  congr 1
  omega

/-- A larger number is rounded. -/
theorem unpack_ofNat_of_le {n : Nat} (hlarge : 2 ^ 53 ≤ n) (hlt : n < 2 ^ 64) :
    (Float.ofNat n).toModel.unpack = settle .positive (significand n) (n.log2 - 52) := by
  have hn : n ≠ 0 := by omega
  have hbounds := significand_bounds hn
  have hlog : n.log2 < 64 := (Nat.log2_lt hn).mpr hlt
  have hlog53 : 53 ≤ n.log2 := (Nat.le_log2 hn).mpr hlarge
  have hproduct : (n * 2 ^ 53).log2 = 52 + (n.log2 - 52 + 53) := by
    rw [log2_mul_two_pow hn]
    omega
  have hscale : nearest (n * 2 ^ 53) (n.log2 - 52 + 53) = significand n := by
    rw [nearest_mul_two_pow, significand, show 52 - n.log2 = 0 by omega, Nat.pow_zero,
      Nat.mul_one]
  have hrounded : UnpackedFloat.ofScientific .binary64 n 0 =
      settle .positive (significand n) (n.log2 - 52) := by
    have hexponent : -53 + ((n.log2 - 52 + 53 : Nat) : Int) = n.log2 - 52 := by omega
    have hne : n * 2 ^ 53 ≠ 0 := Nat.mul_ne_zero hn (by decide)
    rw [ofScientific_eq hn, roundWithAccuracy_eq _ hne hproduct (by decide), hscale, hexponent]
  rw [ofNat_eq, Float.ofScientific, dif_neg (by omega)]
  show (Float.Model.pack (UnpackedFloat.ofScientific .binary64 n 0)).unpack = _
  rw [hrounded, unpack_pack_settle _ hbounds.1 hbounds.2 (by omega) (by omega)]

/-- A small number is made into a double and multiplied by one, a great one is multiplied by one
with all its bits; both give the nearest double. -/
theorem unpack_ofNat {n : Nat} (hn : n ≠ 0) (hlt : n < 2 ^ 64) :
    (Float.ofNat n).toModel.unpack = settle .positive (significand n) (n.log2 - 52) := by
  by_cases hsmall : n < 2 ^ 53
  · exact unpack_ofNat_of_lt hn hsmall
  · exact unpack_ofNat_of_le (Nat.le_of_not_lt hsmall) hlt

/-- The double with the bits of a number in front. -/
def magnitude (sign : Sign) (n : Nat) : UnpackedFloat :=
  settle sign (significand n) (n.log2 - 52)

theorem magnitude_finite (sign : Sign) (n : Nat) :
    ∃ m e hm, magnitude sign n = .finite sign m e hm := by
  unfold magnitude settle
  split
  next h => exact ⟨_, _, h.1, rfl⟩
  next => exact ⟨_, _, by decide, rfl⟩

/-- The double nearest an int. -/
def ofInt (z : Int) : UnpackedFloat :=
  if z = 0 then .zero .positive
  else magnitude (if z < 0 then .negative else .positive) z.natAbs

theorem ofInt_of_pos {z : Int} (h : 0 < z) : ofInt z = magnitude .positive z.natAbs := by
  rw [ofInt, if_neg (by omega), if_neg (by omega)]

theorem ofInt_of_neg {z : Int} (h : z < 0) : ofInt z = magnitude .negative z.natAbs := by
  rw [ofInt, if_neg (by omega), if_pos h]

theorem settle_neg (sign : Sign) (m : Nat) (e : Int) :
    (settle sign m e).neg = settle (-sign) m e := by
  unfold settle
  split <;> rfl

theorem unpack_ofInt {z : Int} (hz : z.natAbs < 2 ^ 64) :
    (Float.ofInt z).toModel.unpack = ofInt z := by
  match z with
  | .ofNat 0 => rfl
  | .ofNat (n + 1) =>
    rw [ofInt_of_pos (z := .ofNat (n + 1)) (Int.natCast_pos.mpr n.succ_pos)]
    exact unpack_ofNat n.succ_ne_zero hz
  | .negSucc n =>
    have hbounds := significand_bounds n.succ_ne_zero
    have hlog : n.succ.log2 < 64 := (Nat.log2_lt n.succ_ne_zero).mpr hz
    rw [ofInt_of_neg (Int.negSucc_lt_zero n)]
    show (Float.Model.pack (Float.ofNat n.succ).toModel.unpack.neg).unpack = _
    rw [unpack_ofNat n.succ_ne_zero hz, settle_neg]
    exact unpack_pack_settle _ hbounds.1 hbounds.2 (by omega) (by omega)

/-! Rounding keeps the order -/

theorem finite_le_finite {m n : Nat} {e f : Int} (hm : 0 < m) (hn : 0 < n)
    (h : e < f ∨ e = f ∧ m ≤ n) :
    (finite .positive m e hm).le (.finite .positive n f hn) ∧
      (finite .negative n f hn).le (.finite .negative m e hm) := by
  have hle : ((compare e f).then (compare m n)).isLE := by
    rcases h with hlt | ⟨rfl, hle⟩
    · rw [Int.compare_eq_lt.mpr hlt]
      rfl
    · rw [Int.compare_eq_eq.mpr rfl]
      exact Nat.isLE_compare.mpr hle
  have hswap : ((compare f e).then (compare n m)).swap.isLE := by
    rw [Ordering.swap_then, Int.compare_swap, Nat.compare_swap]
    exact hle
  exact ⟨hle, hswap⟩

theorem settle_le_settle {m n : Nat} {e f : Int} (hm : 2 ^ 52 ≤ m ∧ m ≤ 2 ^ 53)
    (hn : 2 ^ 52 ≤ n ∧ n ≤ 2 ^ 53) (h : e < f ∨ e = f ∧ m ≤ n) :
    (settle .positive m e).le (settle .positive n f) ∧
      (settle .negative n f).le (settle .negative m e) := by
  unfold settle
  split <;> split <;> apply finite_le_finite <;> omega

theorem magnitude_le_magnitude {m n : Nat} (hm : m ≠ 0) (h : m ≤ n) :
    (magnitude .positive m).le (magnitude .positive n) ∧
      (magnitude .negative n).le (magnitude .negative m) := by
  have hn : n ≠ 0 := by omega
  have hlog : m.log2 ≤ n.log2 :=
    (Nat.le_log2 hn).mpr (Nat.le_trans (Nat.log2_self_le hm) h)
  apply settle_le_settle (significand_bounds hm) (significand_bounds hn)
  by_cases heq : m.log2 = n.log2
  · -- The same bits are cut off from both.
    refine .inr ⟨by rw [heq], ?_⟩
    rw [significand, significand, heq]
    exact nearest_mono _ (Nat.mul_le_mul_right _ h)
  · exact .inl (by omega)

theorem ofInt_le_ofInt {z w : Int} (h : z ≤ w) : (ofInt z).le (ofInt w) := by
  rcases Int.lt_trichotomy z 0 with hz | rfl | hz
  · obtain ⟨m, e, hm, hneg⟩ := magnitude_finite .negative z.natAbs
    rcases Int.lt_trichotomy w 0 with hw | rfl | hw
    · rw [ofInt_of_neg hz, ofInt_of_neg hw]
      exact (magnitude_le_magnitude (by omega) (by omega)).2
    · rw [ofInt_of_neg hz, hneg]
      rfl
    · obtain ⟨n, f, hn, hpos⟩ := magnitude_finite .positive w.natAbs
      rw [ofInt_of_neg hz, ofInt_of_pos hw, hneg, hpos]
      rfl
  · rcases Int.le_iff_eq_or_lt.mp h with rfl | hw
    · rfl
    · obtain ⟨n, f, hn, hpos⟩ := magnitude_finite .positive w.natAbs
      rw [ofInt_of_pos hw, hpos]
      rfl
  · rw [ofInt_of_pos hz, ofInt_of_pos (by omega)]
    exact (magnitude_le_magnitude (by omega) (by omega)).1

end Double

/-- Rounding keeps the order of two ints. -/
theorem widen_le_widen {a b : Int64} (h : a ≤ b) : widen a ≤ widen b := by
  have hsize (n : Int64) : n.toInt.natAbs < 2 ^ 64 := by
    have := n.le_toInt
    have := n.toInt_lt
    omega
  apply decide_eq_true (p := (widen a).toModel ≤ (widen b).toModel)
  show (widen a).toModel.unpack.le (widen b).toModel.unpack = true
  rw [widen, widen, Double.unpack_ofInt (hsize a), Double.unpack_ofInt (hsize b)]
  exact Double.ofInt_le_ofInt (Int64.le_iff_toInt_le.mp h)

end PirFrontend
