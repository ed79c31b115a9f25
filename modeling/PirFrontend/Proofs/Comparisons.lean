import PirFrontend.Proofs.Doubles
import PirFrontend.Value.Fold

/-!
Comparisons that are decided while compiling. A comparison in a condition is decided by
`evaluate`, a comparison in an expression is computed by `fold`. The two read the operands in the
same order, save for one case: `evaluate` compares two ints as nums, where different ints may have
become equal.
-/
namespace PirFrontend

/-- The operation that gives the outcome of the comparison as a value. -/
def RelOp.test : RelOp → BinaryOp
  | .ne => .isNe
  | .eq => .isEq
  | .lt => .isLt
  | .le => .isLe
  | .gt => .isGt
  | .ge => .isGe

/-- Whether the comparison holds of operands in this order, or of operands that have none. -/
def RelOp.outcome (op : RelOp) : Option Ordering → Bool
  | some o => op.holds o
  | none => op == .ne

theorem RelOp.outcome_eq (op : RelOp) (o : Option Ordering) : op.outcome o =
    match op with
    | .ne => o != some .eq
    | .eq => o == some .eq
    | .lt => o == some .lt
    | .le => o == some .lt || o == some .eq
    | .gt => o == some .gt
    | .ge => o == some .gt || o == some .eq := by
  cases op <;> rcases o with _ | _ | _ | _ <;> rfl

/-! Texts -/

theorem compareTexts_eq_lt (a b : String) : compareTexts a b = .lt ↔ a < b := by
  unfold compareTexts
  split
  · simp [*]
  · split <;> simp [*]

theorem compareTexts_eq_eq (a b : String) : compareTexts a b = .eq ↔ a = b := by
  unfold compareTexts
  split
  next hlt =>
    have hne : a ≠ b := by
      intro heq
      rw [heq] at hlt
      exact String.lt_irrefl b hlt
    simpa
  next => split <;> simp [*]

theorem compareTexts_eq_gt (a b : String) : compareTexts a b = .gt ↔ b < a := by
  unfold compareTexts
  split
  next hlt =>
    have := String.lt_asymm hlt
    simpa
  next hlt =>
    split
    next heq =>
      rw [heq]
      simp
    next hne =>
      have hgt : b < a := by
        by_contra hge
        exact hne (String.le_antisymm (String.not_lt.mp hge) (String.not_lt.mp hlt))
      exact iff_of_true rfl hgt

theorem strings_test (a b : String) (op : RelOp) :
    Fold.strings a op.test b = Fold.bit (op.outcome (compareTexts a b)) := by
  rw [op.outcome_eq]
  have heq : (a == b) = (compareTexts a b == .eq) := by
    rw [Bool.eq_iff_iff, beq_iff_eq, beq_iff_eq, compareTexts_eq_eq]
  cases op <;> simp only [Fold.strings, RelOp.test, bne, heq, ← compareTexts_eq_lt a b,
    ← compareTexts_eq_gt a b] <;> cases compareTexts a b <;> rfl

/-! Nums -/

theorem beq_eq_compare (a b : Float) :
    (a == b) = (a.toModel.unpack.compare b.toModel.unpack == some .eq) :=
  rfl

theorem lt_iff_compare (a b : Float) :
    a < b ↔ a.toModel.unpack.compare b.toModel.unpack = some .lt := by
  have hlt : a < b ↔ a.toModel.unpack.lt b.toModel.unpack = true :=
    decide_eq_true_iff (p := a.toModel < b.toModel)
  rw [hlt]
  exact beq_iff_eq

theorem le_iff_compare (a b : Float) :
    a ≤ b ↔ (a.toModel.unpack.compare b.toModel.unpack).any (·.isLE) :=
  decide_eq_true_iff (p := a.toModel ≤ b.toModel)

theorem compareNums_eq (a b : Float) :
    compareNums a b = a.toModel.unpack.compare b.toModel.unpack := by
  unfold compareNums
  rw [beq_eq_compare]
  simp only [lt_iff_compare, Double.compare_swap a.toModel.unpack b.toModel.unpack]
  rcases a.toModel.unpack.compare b.toModel.unpack with _ | _ | _ | _ <;> rfl

theorem nums_test (a b : Float) (op : RelOp) :
    Fold.nums a op.test b = Fold.bit (op.outcome (compareNums a b)) := by
  rw [op.outcome_eq, compareNums_eq]
  cases op <;> simp only [Fold.nums, RelOp.test, bne, beq_eq_compare, lt_iff_compare,
    le_iff_compare, Double.compare_swap a.toModel.unpack b.toModel.unpack] <;>
    rcases a.toModel.unpack.compare b.toModel.unpack with _ | _ | _ | _ <;> rfl

/-! Ints -/

theorem ints_test (a b : Int64) (op : RelOp) :
    Fold.ints a op.test b = Fold.bit (op.outcome (some (compare a b))) := by
  rw [op.outcome_eq]
  have heq : (a == b) = (compare a b == .eq) := by
    rw [Bool.eq_iff_iff, beq_iff_eq, beq_iff_eq, Std.compare_eq_iff_eq]
  cases op <;> simp only [Fold.ints, RelOp.test, bne, heq, ← Std.compare_eq_lt (a := a) (b := b),
    ← Std.compare_eq_gt (a := a) (b := b), ← Std.isLE_compare (a := a) (b := b),
    ← Std.isGE_compare (a := a) (b := b)] <;> cases compare a b <;> rfl

/-- Two ints may become equal when they are widened, but they never change places. -/
theorem compareNums_widen (a b : Int64) : compareNums (widen a) (widen b) =
    some (if widen a == widen b then .eq else compare a b) := by
  have hle (h : (compare a b).isLE) :
      ((widen a).toModel.unpack.compare (widen b).toModel.unpack).any (·.isLE) :=
    (le_iff_compare _ _).mp (widen_le_widen (Std.isLE_compare.mp h))
  have hge (h : (compare a b).isGE) :
      ((widen b).toModel.unpack.compare (widen a).toModel.unpack).any (·.isLE) :=
    (le_iff_compare _ _).mp (widen_le_widen (Std.isGE_compare.mp h))
  rw [Double.compare_swap (widen a).toModel.unpack] at hge
  rw [compareNums_eq, beq_eq_compare]
  generalize (widen a).toModel.unpack.compare (widen b).toModel.unpack = c at *
  generalize compare a b = o at *
  rcases c with _ | _ | _ | _ <;> cases o <;> simp_all

/-! Constants -/

/-- Deciding the comparison agrees with computing it. -/
structure RelOp.Agrees (op : RelOp) (a b : Constant) : Prop where
  holds : evaluate a op b = .ok true ↔ fold a op.test b = .ok (.ofValue (.int 1))
  fails : evaluate a op b = .ok false ↔ fold a op.test b = .ok (.ofValue (.int 0))
  error : (∃ e, evaluate a op b = .error e) ↔ ∃ e, fold a op.test b = .error e

/-- The operands are ints that are told apart by the comparison, and are one and the same num. -/
def RelOp.Confuses (op : RelOp) (a b : Constant) : Prop :=
  ∃ x y, a.value = .int x ∧ b.value = .int y ∧ widen x == widen y ∧
    op.holds .eq ≠ op.holds (compare x y)

namespace RelOp

variable {op : RelOp} {a b : Constant}

theorem evaluate_of_order {o : Option Ordering} (h : order? a b = some o) :
    evaluate a op b = .ok (op.outcome o) := by
  rw [evaluate, h]
  cases o <;> rfl

theorem agrees_iff {p : Bool} {o : Option Ordering} (hevaluate : evaluate a op b = .ok p)
    (hfold : Fold.values a.value op.test b.value = Fold.bit (op.outcome o)) :
    op.Agrees a b ↔ p = op.outcome o := by
  have hconstant : fold a op.test b = .ok (.ofValue (.int (if op.outcome o then 1 else 0))) := by
    rw [fold, hfold]
    rfl
  constructor
  · intro h
    have hholds := h.holds
    rw [hevaluate, hconstant] at hholds
    cases p <;> cases hq : op.outcome o <;> simp_all [Constant.ofValue]
  · intro h
    refine ⟨?_, ?_, ?_⟩ <;> rw [hevaluate, hconstant, h] <;>
      cases op.outcome o <;> simp [Constant.ofValue]

theorem agrees_of_order {o : Option Ordering} (horder : order? a b = some o)
    (hfold : Fold.values a.value op.test b.value = Fold.bit (op.outcome o)) : op.Agrees a b :=
  (agrees_iff (evaluate_of_order horder) hfold).mpr rfl

theorem agrees_of_unsupported (horder : order? a b = none)
    (hfold : Fold.values a.value op.test b.value = .unsupported) : op.Agrees a b := by
  have hevaluate : ∃ e, evaluate a op b = .error e := by
    rw [evaluate, horder]
    exact ⟨_, rfl⟩
  have hconstant : ∃ e, fold a op.test b = .error e := by
    rw [fold, hfold]
    exact ⟨_, rfl⟩
  obtain ⟨e, he⟩ := hevaluate
  obtain ⟨f, hf⟩ := hconstant
  refine ⟨?_, ?_, ?_⟩ <;> rw [he, hf] <;> simp

/-- Two constants that are not both ints are never confused, and deciding agrees with computing:
both read one order, or both find none. -/
theorem agrees_of_not_ints (h : ∀ x y, a.value = .int x → b.value = .int y → False) :
    op.Agrees a b := by
  obtain ⟨m, v⟩ := a
  obtain ⟨n, w⟩ := b
  -- Both compare numbers as doubles unless both are ints; texts are compared alike, and all else is
  -- refused alike.
  cases v with
  | int x =>
    cases w with
    | int y => exact (h x y rfl rfl).elim
    | num y => exact agrees_of_order rfl (nums_test _ _ op)
    | string t => exact agrees_of_unsupported rfl rfl
    | pmc t => exact agrees_of_unsupported rfl rfl
  | num x =>
    cases w with
    | int y => exact agrees_of_order rfl (nums_test _ _ op)
    | num y => exact agrees_of_order rfl (nums_test _ _ op)
    | string t => exact agrees_of_unsupported rfl rfl
    | pmc t => exact agrees_of_unsupported rfl rfl
  | string s =>
    cases w with
    | string t => exact agrees_of_order rfl (strings_test s t op)
    | int y => exact agrees_of_unsupported rfl rfl
    | num y => exact agrees_of_unsupported rfl rfl
    | pmc t => exact agrees_of_unsupported rfl rfl
  | pmc s => cases w <;> exact agrees_of_unsupported rfl rfl

theorem evaluate_ints (m n : Option String) (x y : Int64) :
    evaluate ⟨m, .int x⟩ op ⟨n, .int y⟩ =
      .ok (op.holds (if widen x == widen y then .eq else compare x y)) := by
  have horder : order? ⟨m, .int x⟩ ⟨n, .int y⟩ = some (compareNums (widen x) (widen y)) := rfl
  rw [evaluate, horder, compareNums_widen]

theorem confuses_ints (m n : Option String) (x y : Int64) :
    op.Confuses ⟨m, .int x⟩ ⟨n, .int y⟩ ↔
      op.holds (if widen x == widen y then .eq else compare x y) ≠ op.holds (compare x y) := by
  constructor
  · rintro ⟨_, _, ⟨rfl⟩, ⟨rfl⟩, heq, hne⟩
    rwa [if_pos heq]
  · intro h
    by_cases heq : widen x == widen y
    · rw [if_pos heq] at h
      exact ⟨x, y, rfl, rfl, heq, h⟩
    · rw [if_neg heq] at h
      exact absurd rfl h

end RelOp

/-- Deciding a comparison agrees with computing it, unless it tells two ints apart that are one
num. On ints it is the comparison of ints under the same condition. -/
theorem evaluate_agrees_iff (a b : Constant) (op : RelOp) :
    (op.Agrees a b ↔ ¬ op.Confuses a b) ∧
    ∀ m n x y, evaluate ⟨m, .int x⟩ op ⟨n, .int y⟩ = .ok (op.holds (compare x y)) ↔
      ¬ op.Confuses ⟨m, .int x⟩ ⟨n, .int y⟩ := by
  constructor
  · by_cases hints : ∃ x y, a.value = .int x ∧ b.value = .int y
    · obtain ⟨⟨m, _⟩, ⟨n, _⟩⟩ := a, b
      obtain ⟨x, y, rfl, rfl⟩ := hints
      rw [RelOp.agrees_iff (RelOp.evaluate_ints m n x y) (ints_test x y op), RelOp.confuses_ints,
        not_not]
      rfl
    · have hnot : ¬ op.Confuses a b := by
        rintro ⟨x, y, hx, hy, -⟩
        exact hints ⟨x, y, hx, hy⟩
      have hagrees : op.Agrees a b :=
        RelOp.agrees_of_not_ints fun x y hx hy => hints ⟨x, y, hx, hy⟩
      exact ⟨fun _ => hnot, fun _ => hagrees⟩
  · intro m n x y
    rw [RelOp.evaluate_ints, RelOp.confuses_ints, not_not, Except.ok.injEq]

/-- `2 ^ 53` and its successor are one num. -/
theorem evaluate_agrees_iff_two_pow : ¬ RelOp.lt.Agrees (.ofValue (.int 9007199254740992))
    (.ofValue (.int 9007199254740993)) := by
  rw [(evaluate_agrees_iff _ _ _).1, not_not]
  exact ⟨9007199254740992, 9007199254740993, rfl, rfl, by decide +kernel, by decide +kernel⟩

end PirFrontend
