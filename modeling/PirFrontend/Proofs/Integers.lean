import Mathlib.Data.Int.Bitwise
import PirFrontend.Value.Fold

/-!
Operations on int constants and arithmetic on the integers. The ints of 64 bits are read as the
integers they stand for. An operation then gives the exact result, reduced modulo `2 ^ 64` where
it can leave their range.
-/
namespace PirFrontend.Fold

/-- The int of 64 bits that an integer is congruent to. -/
def residue (x : Int) : Int := x.bmod Int64.size

/-- How far a shift by `b` goes. -/
def shiftCount (b : Int) : Nat := (b % 64).toNat

/-- `w` is the int that an operation on `a` and `b` has to give. A power is a num, and only texts
are joined. -/
def IsExact (op : BinaryOp) (a b w : Int) : Prop :=
  match op with
  | .add => w = residue (a + b)
  | .sub => w = residue (a - b)
  | .mul => w = residue (a * b)
  | .div | .floorDiv => w = residue (a.tdiv b)
  | .mod =>
    w = a.tmod b ∧ w = a.sign * w.natAbs ∧ w.natAbs < b.natAbs ∧
      a = residue (b * residue (a.tdiv b) + w)
  | .bitOr => ∀ i, w.testBit i = (a.testBit i || b.testBit i)
  | .bitAnd => ∀ i, w.testBit i = (a.testBit i && b.testBit i)
  | .bitXor | .xor => ∀ i, w.testBit i = (a.testBit i ^^ b.testBit i)
  | .shl => w = residue (a * 2 ^ shiftCount b)
  | .shr => w = a.fdiv (2 ^ shiftCount b)
  | .lsr => w = residue ((a % Int64.size).fdiv (2 ^ shiftCount b))
  | .or => w = if a ≠ 0 ∨ b ≠ 0 then 1 else 0
  | .and => w = if a ≠ 0 ∧ b ≠ 0 then 1 else 0
  | .isEq => w = if a = b then 1 else 0
  | .isLe => w = if a ≤ b then 1 else 0
  | .isLt => w = if a < b then 1 else 0
  | .isGe => w = if a ≥ b then 1 else 0
  | .isGt => w = if a > b then 1 else 0
  | .isNe => w = if a ≠ b then 1 else 0
  | .pow | .concat => False

/-- The operations that have no result for a zero on their right. -/
def Divides (op : BinaryOp) : Prop := op = .div ∨ op = .floorDiv ∨ op = .mod

variable (a b : Int64)

/-! ### Remainders -/

theorem isExact_mod (hb : b ≠ 0) : IsExact .mod a.toInt b.toInt (a % b).toInt := by
  have hpos : 0 < b.toInt.natAbs := Int.natAbs_pos.2 fun h => hb (Int64.toInt_inj.1 h)
  rw [Int64.toInt_mod]
  refine ⟨rfl, ?_, ?_, ?_⟩
  · have hsign := Int.sign_mul_natAbs (a.toInt.tmod b.toInt)
    rw [Int.sign_tmod] at hsign
    split at hsign
    next hdvd => simp [Int.tmod_eq_zero_of_dvd hdvd]
    next => exact hsign.symm
  · rw [Int.natAbs_tmod]
    exact Nat.mod_lt _ hpos
  · -- Modulo `2 ^ 64` the quotient may be reduced before it is multiplied.
    have hquotient : residue (b.toInt * residue (a.toInt.tdiv b.toInt) + a.toInt.tmod b.toInt) =
        residue (b.toInt * a.toInt.tdiv b.toInt + a.toInt.tmod b.toInt) := by
      unfold residue
      rw [← Int.bmod_add_bmod, Int.mul_bmod_bmod, Int.bmod_add_bmod]
    rw [hquotient, Int.mul_tdiv_add_tmod]
    exact a.toInt_bmod.symm

/-! ### Bits -/

/-- The bits of an int in two's complement. They go on with its sign. -/
theorem testBit_toInt (i : Nat) :
    a.toInt.testBit i = if i < 64 then a.toBitVec.getLsbD i else a.toBitVec.msb := by
  rw [← Int64.toInt_toBitVec, BitVec.toInt_eq_msb_cond]
  have hlt : a.toBitVec.toNat < 2 ^ 64 := a.toBitVec.isLt
  cases hmsb : a.toBitVec.msb with
  | false =>
    change a.toBitVec.toNat.testBit i = _
    split
    next => rfl
    next hi =>
      exact Nat.testBit_lt_two_pow (hlt.trans_le (Nat.pow_le_pow_right (by decide) (by omega)))
  | true =>
    have hneg : (a.toBitVec.toNat : Int) - (2 ^ 64 : Nat) =
        Int.negSucc (2 ^ 64 - (a.toBitVec.toNat + 1)) := by omega
    simp only [if_true]
    rw [hneg]
    change (!Nat.testBit (2 ^ 64 - (a.toBitVec.toNat + 1)) i) = _
    rw [Nat.testBit_two_pow_sub_succ hlt]
    by_cases hi : i < 64 <;> simp [hi, BitVec.getLsbD]

theorem isExact_or : IsExact .bitOr a.toInt b.toInt (a ||| b).toInt := by
  intro i
  simp only [testBit_toInt, Int64.toBitVec_or, BitVec.getLsbD_or, BitVec.msb_or]
  split <;> rfl

theorem isExact_and : IsExact .bitAnd a.toInt b.toInt (a &&& b).toInt := by
  intro i
  simp only [testBit_toInt, Int64.toBitVec_and, BitVec.getLsbD_and, BitVec.msb_and]
  split <;> rfl

theorem isExact_xor : IsExact .xor a.toInt b.toInt (a ^^^ b).toInt := by
  intro i
  simp only [testBit_toInt, Int64.toBitVec_xor, BitVec.getLsbD_xor, BitVec.msb_xor]
  split <;> rfl

/-! ### Shifts -/

/-- A shift count, read without its sign. -/
theorem toNat_mod : b.toBitVec.toNat % 64 = shiftCount b.toInt := by
  have hcond := BitVec.toInt_eq_toNat_cond b.toBitVec
  rw [Int64.toInt_toBitVec] at hcond
  unfold shiftCount
  split at hcond <;> omega

/-- A shift count, read with its sign. -/
theorem toNat_smod : (b.toBitVec.smod 64).toNat = shiftCount b.toInt := by
  have hmod : (b.toBitVec.smod 64).toInt = b.toInt % 64 := by
    rw [BitVec.toInt_smod, Int64.toInt_toBitVec]
    exact Int.fmod_eq_emod_of_nonneg _ (by decide)
  have hcond := BitVec.toInt_eq_toNat_cond (b.toBitVec.smod 64)
  have hlt := (b.toBitVec.smod 64).isLt
  unfold shiftCount
  split at hcond <;> omega

theorem isExact_shl : IsExact .shl a.toInt b.toInt (a <<< b).toInt := by
  change (a <<< b).toInt = Int.bmod (a.toInt * 2 ^ shiftCount b.toInt) (2 ^ 64)
  have hshift : (a <<< b).toBitVec = a.toBitVec <<< shiftCount b.toInt := by
    rw [Int64.toBitVec_shiftLeft, BitVec.shiftLeft_eq', toNat_smod]
  calc (a <<< b).toInt
    _ = (a.toBitVec <<< shiftCount b.toInt).toInt := by rw [← Int64.toInt_toBitVec, hshift]
    _ = Int.bmod ((a.toBitVec.toNat * 2 ^ shiftCount b.toInt : Nat) : Int) (2 ^ 64) := by
      rw [BitVec.toInt_shiftLeft, Nat.shiftLeft_eq]
    _ = Int.bmod (a.toBitVec.toInt * 2 ^ shiftCount b.toInt) (2 ^ 64) := by
      rw [BitVec.toInt_eq_toNat_bmod, Int.bmod_mul_bmod]
      push_cast
      rfl
    _ = Int.bmod (a.toInt * 2 ^ shiftCount b.toInt) (2 ^ 64) := by rw [Int64.toInt_toBitVec]

theorem isExact_shr : IsExact .shr a.toInt b.toInt (a >>> b).toInt := by
  have hpos : (0 : Int) ≤ 2 ^ shiftCount b.toInt := Int.pow_nonneg (by decide)
  calc (a >>> b).toInt
    _ = a.toInt >>> shiftCount b.toInt := by
      rw [← Int64.toInt_toBitVec, Int64.toBitVec_shiftRight, BitVec.toInt_sshiftRight', toNat_smod,
        Int64.toInt_toBitVec]
    _ = a.toInt / (2 ^ shiftCount b.toInt : Nat) := Int.shiftRight_eq_div_pow _ _
    _ = a.toInt / 2 ^ shiftCount b.toInt := by norm_cast
    _ = a.toInt.fdiv (2 ^ shiftCount b.toInt) := (Int.fdiv_eq_ediv_of_nonneg _ hpos).symm

theorem isExact_lsr :
    IsExact .lsr a.toInt b.toInt (a.toUInt64 >>> b.toUInt64).toInt64.toInt := by
  change _ = Int.bmod ((a.toInt % Int64.size).fdiv (2 ^ shiftCount b.toInt)) (2 ^ 64)
  have hunsigned : a.toInt % Int64.size = a.toBitVec.toNat := by
    have hcond := BitVec.toInt_eq_toNat_cond a.toBitVec
    have hlt := a.toBitVec.isLt
    rw [Int64.toInt_toBitVec] at hcond
    change a.toInt % (2 ^ 64 : Nat) = _
    split at hcond <;> omega
  have hshift : (a.toUInt64 >>> b.toUInt64).toNat =
      a.toBitVec.toNat / 2 ^ shiftCount b.toInt := by
    rw [UInt64.toNat_shiftRight, Nat.shiftRight_eq_div_pow]
    exact congrArg (a.toBitVec.toNat / 2 ^ ·) (toNat_mod b)
  have hpos : (0 : Int) ≤ 2 ^ shiftCount b.toInt := Int.pow_nonneg (by decide)
  calc (a.toUInt64 >>> b.toUInt64).toInt64.toInt
    _ = Int.bmod (a.toUInt64 >>> b.toUInt64).toNat (2 ^ 64) := by
      rw [← Int64.toInt_toBitVec, UInt64.toBitVec_toInt64, BitVec.toInt_eq_toNat_bmod]
      rfl
    _ = Int.bmod (a.toBitVec.toNat / 2 ^ shiftCount b.toInt : Nat) (2 ^ 64) := by rw [hshift]
    _ = Int.bmod ((a.toBitVec.toNat : Int).fdiv (2 ^ shiftCount b.toInt)) (2 ^ 64) := by
      rw [Int.fdiv_eq_ediv_of_nonneg _ hpos]
      norm_cast
    _ = Int.bmod ((a.toInt % Int64.size).fdiv (2 ^ shiftCount b.toInt)) (2 ^ 64) := by
      rw [hunsigned]

/-! ### All operations -/

theorem ne_zero_iff : a ≠ 0 ↔ a.toInt ≠ 0 := by
  rw [Ne, Ne, ← Int64.toInt_inj, Int64.toInt_zero]

/-- Unless it divides by zero, every operation that stays among the ints has the exact result. -/
theorem ints_exact {op : BinaryOp} (hzero : ¬(Divides op ∧ b = 0)) (hconcat : op ≠ .concat)
    (hpow : op ≠ .pow) :
    ∃ w, ints a op b = .value (.int w) ∧ IsExact op a.toInt b.toInt w.toInt := by
  have hne (h : Divides op) : b ≠ 0 := fun hb => hzero ⟨h, hb⟩
  cases op with
  | add => exact ⟨a + b, rfl, Int64.toInt_add a b⟩
  | sub => exact ⟨a - b, rfl, Int64.toInt_sub a b⟩
  | mul => exact ⟨a * b, rfl, Int64.toInt_mul a b⟩
  | div => exact ⟨a / b, if_neg (hne (.inl rfl)), Int64.toInt_div a b⟩
  | floorDiv => exact ⟨a / b, if_neg (hne (.inr (.inl rfl))), Int64.toInt_div a b⟩
  | mod =>
    have hb := hne (.inr (.inr rfl))
    exact ⟨a % b, if_neg hb, isExact_mod a b hb⟩
  | bitOr => exact ⟨a ||| b, rfl, isExact_or a b⟩
  | bitAnd => exact ⟨a &&& b, rfl, isExact_and a b⟩
  | bitXor | xor => exact ⟨a ^^^ b, rfl, isExact_xor a b⟩
  | shl => exact ⟨a <<< b, rfl, isExact_shl a b⟩
  | shr => exact ⟨a >>> b, rfl, isExact_shr a b⟩
  | lsr => exact ⟨(a.toUInt64 >>> b.toUInt64).toInt64, rfl, isExact_lsr a b⟩
  | or | and =>
    exact ⟨_, rfl, by simp [IsExact, apply_ite Int64.toInt, ne_zero_iff]⟩
  | isEq | isNe =>
    exact ⟨_, rfl, by simp [IsExact, apply_ite Int64.toInt, Int64.toInt_inj]⟩
  | isLe | isLt | isGe | isGt =>
    exact ⟨_, rfl, by
      simp [IsExact, apply_ite Int64.toInt, Int64.le_iff_toInt_le, Int64.lt_iff_toInt_lt]⟩
  | pow => exact absurd rfl hpow
  | concat => exact absurd rfl hconcat

/-- An operation on two int constants has the exact result. Nothing but a division by zero fails
on ints, and joining them, which has no meaning. A power is computed with nums. -/
theorem fold_ints_exact (op : BinaryOp) (name name' : Option String) :
    let folded := fold ⟨name, .int a⟩ op ⟨name', .int b⟩
    (Divides op ∧ b = 0 ∧ folded = .error .divisionByZero) ∨
      (op = .concat ∧ folded = .error (.unsupported "concat" .int .int)) ∨
      (op = .pow ∧ folded = .ok (.ofValue (.num (Float.pow (widen a) (widen b))))) ∨
      (¬(Divides op ∧ b = 0) ∧ ∃ w : Int64,
        folded = .ok (.ofValue (.int w)) ∧ IsExact op a.toInt b.toInt w.toInt) := by
  intro folded
  by_cases hzero : Divides op ∧ b = 0
  · obtain ⟨hop, rfl⟩ := hzero
    refine .inl ⟨hop, rfl, ?_⟩
    obtain rfl | rfl | rfl := hop <;> rfl
  by_cases hconcat : op = .concat
  · subst hconcat
    exact .inr (.inl ⟨rfl, rfl⟩)
  by_cases hpow : op = .pow
  · subst hpow
    exact .inr (.inr (.inl ⟨rfl, rfl⟩))
  obtain ⟨w, hw, hexact⟩ := ints_exact a b hzero hconcat hpow
  refine .inr (.inr (.inr ⟨hzero, w, ?_, hexact⟩))
  simp only [folded, fold, values, hw]

/-- The one quotient that is reduced. -/
example : residue (Int.tdiv (-2 ^ 63) (-1)) = -2 ^ 63 := by decide

end PirFrontend.Fold
