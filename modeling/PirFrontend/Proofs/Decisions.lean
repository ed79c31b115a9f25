import PirFrontend.Proofs.Building
import PirFrontend.Proofs.Comparisons

/-!
Comparisons in conditions that are decided while compiling. On constants `unless` negates the
outcome, on other operands it tests the inverted comparison. The two agree where the operands have
an order, for an inverted comparison holds there exactly if the comparison fails. Only an undefined
num has no order with the values that it can be compared with.
-/
namespace PirFrontend

/-- Values of these types are compared: two strings, or two numbers. -/
def ValueType.Comparable (s t : ValueType) : Prop :=
  (s = .string ∧ t = .string) ∨ ((s = .int ∨ s = .num) ∧ (t = .int ∨ t = .num))

instance (s t : ValueType) : Decidable (s.Comparable t) :=
  inferInstanceAs (Decidable (_ ∨ _))

/-- Whether the value is a num that is none. -/
def ConstantValue.isUndefined : ConstantValue → Bool
  | .num v => v.isNaN
  | _ => false

/-! Orders -/

theorem Double.exists_compare {x y : Float.Model.UnpackedFloat} (hx : x.isNaN = false)
    (hy : y.isNaN = false) : ∃ o, x.compare y = some o := by
  cases x with
  | notANumber => cases hx
  | infinity s =>
    cases y with
    | notANumber => cases hy
    | infinity t => exact ⟨_, rfl⟩
    | zero t => cases s <;> exact ⟨_, rfl⟩
    | finite t => cases s <;> exact ⟨_, rfl⟩
  | zero s =>
    cases y with
    | notANumber => cases hy
    | infinity t => cases t <;> exact ⟨_, rfl⟩
    | zero t => exact ⟨_, rfl⟩
    | finite t => cases t <;> exact ⟨_, rfl⟩
  | finite s m e =>
    cases y with
    | notANumber => cases hy
    | infinity t => cases s <;> cases t <;> exact ⟨_, rfl⟩
    | zero t => cases s <;> exact ⟨_, rfl⟩
    | finite t n f => cases s <;> cases t <;> exact ⟨_, rfl⟩

theorem exists_compareNums {x y : Float} (hx : x.isNaN = false) (hy : y.isNaN = false) :
    ∃ o, compareNums x y = some o := by
  rw [compareNums_eq]
  exact Double.exists_compare hx hy

/-- An int never becomes undefined as a num, because it is equal to itself. -/
theorem isNaN_widen (n : Int64) : (widen n).isNaN = false := by
  have horder := compareNums_widen n n
  rw [compareNums_eq] at horder
  cases hnan : (widen n).isNaN with
  | false => rfl
  | true =>
    have hunpack : (widen n).toModel.unpack = .notANumber := by
      cases hmodel : (widen n).toModel.unpack with
      | notANumber => rfl
      | infinity | zero | finite =>
        have hsome : (widen n).toModel.unpack.isNaN = true := hnan
        rw [hmodel] at hsome
        cases hsome
    rw [hunpack] at horder
    cases horder

theorem Constant.exists_asNum {c : Constant} (htype : c.type = .int ∨ c.type = .num)
    (hc : c.value.isUndefined = false) : ∃ x, c.asNum? = some x ∧ x.isNaN = false := by
  obtain ⟨name, v⟩ := c
  cases v with
  | int n => exact ⟨widen n, rfl, isNaN_widen n⟩
  | num x => exact ⟨x, rfl, hc⟩
  | string s => simp [Constant.type, ConstantValue.type] at htype
  | pmc s => simp [Constant.type, ConstantValue.type] at htype

/-- Comparable constants have an order unless one of them is undefined. -/
theorem exists_order {x y : Constant} (htypes : x.type.Comparable y.type)
    (hx : x.value.isUndefined = false) (hy : y.value.isUndefined = false) :
    ∃ o, order? x y = some (some o) := by
  rcases htypes with ⟨hxs, hys⟩ | ⟨hxn, hyn⟩
  · obtain ⟨⟨m, v⟩, ⟨n, w⟩⟩ := x, y
    cases v <;> cases hxs
    cases w <;> cases hys
    exact ⟨_, rfl⟩
  · obtain ⟨u, hu, hunan⟩ := Constant.exists_asNum hxn hx
    obtain ⟨v, hv, hvnan⟩ := Constant.exists_asNum hyn hy
    obtain ⟨o, ho⟩ := exists_compareNums hunan hvnan
    refine ⟨o, ?_⟩
    unfold order?
    split
    next hxs _ => simp [Constant.asNum?, hxs] at hu
    next => simp only [hu, hv, ho]

/-! Inversion -/

namespace RelOp

theorem holds_inverted (op : RelOp) (o : Ordering) : op.inverted.holds o = !op.holds o := by
  cases op <;> cases o <;> rfl

theorem ofOpcode?_opcode (op : RelOp) : ofOpcode? op.opcode = some op := by
  cases op <;> rfl

end RelOp

/-- Both words test at run time whether they would take the branch now. -/
theorem Polarity.holds_relation (p : Polarity) (op : RelOp) (o : Ordering) :
    (p.relation op).holds o = p.takes (op.holds o) := by
  cases p with
  | positive => rfl
  | negative => exact op.holds_inverted o

namespace Build

variable {b : Builder} {x y : Constant}

/-- Constants that are ordered: the branch is there exactly if the comparison would hold that is
left to the running program on other operands. -/
theorem conditionalRelation_decides (ha : b.aborted = false) (hs : b.current.isSome)
    (htypes : x.type.Comparable y.type) (hx : x.value.isUndefined = false)
    (hy : y.value.isUndefined = false) (p : Polarity) (op : RelOp) (label : String) :
    ∃ test taken value,
      RelOp.ofOpcode? (p.relationalBranch op (.constant x) (.constant y) label).opcode = some test ∧
      evaluate x test y = .ok taken ∧ evaluate x op y = .ok value ∧
      (conditionalRelation p (.constant x) op (.constant y) label).run b = (.ok (.known value),
        b.appended (.instruction
          (if taken then .of "branch" [.label label] else .of "noop" []))) := by
  obtain ⟨o, ho⟩ := exists_order htypes hx hy
  have hevaluate (r : RelOp) : evaluate x r y = .ok (r.holds o) := by
    rw [evaluate, ho]
  refine ⟨p.relation op, (p.relation op).holds o, op.holds o, (p.relation op).ofOpcode?_opcode,
    hevaluate _, hevaluate _, ?_⟩
  have hdecided : conditionalRelation p (.constant x) op (.constant y) label =
      conditionalKnown p (op.holds o) label := by
    simp only [conditionalRelation, hevaluate]
  rw [hdecided, conditionalKnown, run_bind_ok (run_emit_appended ha hs _), p.holds_relation]
  rfl

/-- `unless 1 < 1.5 goto L` in a new subroutine: what is left out is the branch on `1 >= 1.5`. -/
theorem conditionalRelation_decides_unless :
    let b := ((Builder.new .standard).openSub "main").2
    let x := Constant.ofValue (.int 1)
    let y := Constant.ofValue (.num 1.5)
    ∃ test taken value,
      RelOp.ofOpcode? (Polarity.negative.relationalBranch .lt (.constant x) (.constant y)
        "L").opcode = some test ∧
      evaluate x test y = .ok taken ∧ evaluate x .lt y = .ok value ∧
      (conditionalRelation .negative (.constant x) .lt (.constant y) "L").run b =
        (.ok (.known value), b.appended (.instruction
          (if taken then .of "branch" [.label "L"] else .of "noop" []))) :=
  conditionalRelation_decides rfl rfl (by decide) rfl (by decide +kernel) .negative .lt "L"

end Build
end PirFrontend
