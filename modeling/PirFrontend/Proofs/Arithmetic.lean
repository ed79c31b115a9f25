import Mathlib.Logic.Function.Basic
import PirFrontend.Proofs.Building

/-!
What arithmetic statements do. Instructions on int registers and int constants have a meaning on
a store of ints. Folding two constants, leaving out a source that repeats the destination and the
cheaper forms for zero and one all keep it.
-/
namespace PirFrontend

/-- What the int registers hold. -/
abbrev IntStore := Nat → Int64

/-- The number of an int register without a key. -/
def Target.intRegister? (t : Target) : Option Nat :=
  match t.storage, t.key with
  | .register .int n, none => some n
  | _, _ => none

/-- The int that an operand stands for, if it is an int register or an int constant. -/
def Expression.intValue? (store : IntStore) : Expression → Option Int64
  | .target t => t.intRegister?.map store
  | .constant ⟨_, .int v⟩ => some v
  | _ => none

theorem Expression.intValue?_eq_some {store : IntStore} {e : Expression} {v : Int64}
    (h : e.intValue? store = some v) :
    (∃ name, e = .constant ⟨name, .int v⟩) ∨
      ∃ t m, e = .target t ∧ t.intRegister? = some m ∧ store m = v := by
  cases e with
  | target t =>
    obtain ⟨m, hm, hv⟩ := Option.map_eq_some_iff.1 h
    exact .inr ⟨t, m, rfl, hm, hv⟩
  | constant c =>
    obtain ⟨name, value⟩ := c
    cases value <;> simp_all [intValue?]
  | key k => simp [intValue?] at h
  | label name => simp [intValue?] at h

/-- The operand is an int register or an int constant. -/
def Expression.IsInt (e : Expression) : Prop := ∀ store, (e.intValue? store).isSome

theorem Expression.IsInt.of_constant {c : Constant} (h : (Expression.constant c).IsInt) :
    ∃ name v, c = ⟨name, .int v⟩ := by
  obtain ⟨name, value⟩ := c
  cases value with
  | int v => exact ⟨name, v, rfl⟩
  | _ => exact absurd (h fun _ => 0) (by simp [intValue?])

/-- What a statement does to the int registers. -/
inductive IntEffect where
  | stores (store : IntStore)
  | traps

namespace IntEffect

/-- Writes a value to a register. There is none to write if its computation trapped. -/
def write (store : IntStore) (n : Nat) : Option Int64 → IntEffect
  | some v => stores (Function.update store n v)
  | none => traps

theorem write_self (store : IntStore) (n : Nat) :
    write store n (some (store n)) = stores store := by
  simp [write]

end IntEffect

/-- The value of an operation on ints, as constants are folded. Without one the operation traps. -/
def BinaryOp.onInts (op : BinaryOp) (a b : Int64) : Option Int64 :=
  match Fold.ints a op b with
  | .value (.int v) => some v
  | _ => none

/-- What an instruction on ints does, if it is one. -/
def Instruction.onInts? (i : Instruction) (store : IntStore) : Option IntEffect :=
  match BinaryOp.ofOpcode? i.opcode, i.operands with
  | some op, [.target d, a, b] => do
    let n ← d.intRegister?
    return .write store n (op.onInts (← a.intValue? store) (← b.intValue? store))
  | some op, [.target d, s] => do
    let n ← d.intRegister?
    return .write store n (op.onInts (store n) (← s.intValue? store))
  | none, [.target d, s] => do
    let n ← d.intRegister?
    let v ← s.intValue? store
    if i.opcode = "set" then some (.write store n (some v)) else none
  | none, [.target d] => do
    let n ← d.intRegister?
    match i.opcode with
    | "inc" => some (.write store n (some (store n + 1)))
    | "dec" => some (.write store n (some (store n - 1)))
    | "null" => some (.write store n (some 0))
    | _ => none
  | none, [] => if i.opcode = "noop" then some (.stores store) else none
  | _, _ => none

theorem BinaryOp.ofOpcode?_opcode (op : BinaryOp) : ofOpcode? op.opcode = some op := by
  cases op <;> decide

theorem Target.intRegister?_eq_some {t : Target} {n : Nat} (h : t.intRegister? = some n) :
    t.storage = .register .int n ∧ t.key = none := by
  unfold intRegister? at h
  split at h
  next hs hk => simp_all
  next => simp at h

theorem Target.intRegister?_eq_of_same {t u : Target} {n m : Nat} (h : t.same u)
    (ht : t.intRegister? = some n) (hu : u.intRegister? = some m) : n = m := by
  obtain ⟨hts, htk⟩ := intRegister?_eq_some ht
  obtain ⟨hus, huk⟩ := intRegister?_eq_some hu
  cases t
  cases u
  simp_all [Target.same, Storage.same]

namespace Instruction
variable {store : IntStore} {l : Option String} {d : Target} {n : Nat}

theorem onInts?_update (op : BinaryOp) (hd : d.intRegister? = some n) (s : Expression) :
    (⟨l, op.opcode, [.target d, s]⟩ : Instruction).onInts? store =
      (s.intValue? store).map fun v => .write store n (op.onInts (store n) v) := by
  simp only [onInts?, op.ofOpcode?_opcode, hd]
  cases s.intValue? store <;> rfl

theorem onInts?_assign (op : BinaryOp) (hd : d.intRegister? = some n) (a b : Expression) :
    (⟨l, op.opcode, [.target d, a, b]⟩ : Instruction).onInts? store =
      (a.intValue? store).bind fun u => (b.intValue? store).map fun v =>
        .write store n (op.onInts u v) := by
  simp only [onInts?, op.ofOpcode?_opcode, hd]
  cases a.intValue? store <;> cases b.intValue? store <;> rfl

theorem onInts?_noop : (⟨l, "noop", []⟩ : Instruction).onInts? store = some (.stores store) := rfl

theorem onInts?_inc (hd : d.intRegister? = some n) :
    (⟨l, "inc", [.target d]⟩ : Instruction).onInts? store =
      some (.write store n (some (store n + 1))) := by
  have hn : BinaryOp.ofOpcode? "inc" = none := by decide
  simp [onInts?, hn, hd]

theorem onInts?_dec (hd : d.intRegister? = some n) :
    (⟨l, "dec", [.target d]⟩ : Instruction).onInts? store =
      some (.write store n (some (store n - 1))) := by
  have hn : BinaryOp.ofOpcode? "dec" = none := by decide
  simp [onInts?, hn, hd]

theorem onInts?_null (hd : d.intRegister? = some n) :
    (⟨l, "null", [.target d]⟩ : Instruction).onInts? store = some (.write store n (some 0)) := by
  have hn : BinaryOp.ofOpcode? "null" = none := by decide
  simp [onInts?, hn, hd]

theorem onInts?_set (hd : d.intRegister? = some n) (s : Expression) :
    (⟨l, "set", [.target d, s]⟩ : Instruction).onInts? store =
      (s.intValue? store).map fun v => .write store n (some v) := by
  have hn : BinaryOp.ofOpcode? "set" = none := by decide
  simp only [onInts?, hn, hd]
  cases s.intValue? store <;> rfl

/-- A constant source that is dropped or built into the opcode leaves the same value behind. -/
theorem onInts?_simplify (r : Reduction) (op : BinaryOp) (hd : d.intRegister? = some n)
    (name : Option String) (v : Int64) :
    (simplify r ⟨l, op.opcode, [.target d, .constant ⟨name, .int v⟩]⟩).2.onInts? store =
      some (.write store n (op.onInts (store n) v)) := by
  have hu : (⟨l, op.opcode, [.target d, .constant ⟨name, .int v⟩]⟩ : Instruction).onInts? store =
      some (.write store n (op.onInts (store n) v)) := onInts?_update op hd _
  have hw := IntEffect.write_self store n
  -- The table of simplifications has entries for 0 and 1 only.
  by_cases hz : v = 0
  · subst hz
    cases op
    case add | sub =>
      simpa [simplify, BinaryOp.opcode, Simplification.find?, Constant.numericEquals,
        BinaryOp.onInts, Fold.ints, hw] using onInts?_noop
    case mul =>
      simpa [simplify, BinaryOp.opcode, Simplification.find?, Constant.numericEquals,
        BinaryOp.onInts, Fold.ints] using onInts?_null hd
    all_goals exact hu
  by_cases ho : v = 1
  · subst ho
    cases op
    case add =>
      simpa [simplify, BinaryOp.opcode, Simplification.find?, Constant.numericEquals,
        BinaryOp.onInts, Fold.ints] using onInts?_inc hd
    case sub =>
      simpa [simplify, BinaryOp.opcode, Simplification.find?, Constant.numericEquals,
        BinaryOp.onInts, Fold.ints] using onInts?_dec hd
    case mul | div | floorDiv =>
      simpa [simplify, BinaryOp.opcode, Simplification.find?, Constant.numericEquals,
        BinaryOp.onInts, Fold.ints, hw] using onInts?_noop
    all_goals exact hu
  · have hf : Simplification.find? op.opcode ((Constant.mk name (.int v)).numericEquals 0)
        ((Constant.mk name (.int v)).numericEquals 1) = none := by
      cases op <;> simp [BinaryOp.opcode, Simplification.find?, Constant.numericEquals, hz, ho]
    simp only [simplify, hf]
    exact hu

/-- A first source that is the destination itself can be left out. -/
theorem onInts?_dropRepeated (op : BinaryOp) (hd : d.intRegister? = some n) {s : Target}
    (hs : d.same s) (hr : s.intRegister?.isSome) (e : Expression) :
    (⟨l, op.opcode, [.target d, .target s, e]⟩ : Instruction).onInts? store =
      (⟨l, op.opcode, [.target d, e]⟩ : Instruction).onInts? store := by
  obtain ⟨m, hm⟩ := Option.isSome_iff_exists.1 hr
  have hnm := Target.intRegister?_eq_of_same hs hd hm
  subst hnm
  rw [onInts?_assign op hd, onInts?_update op hd]
  simp [Expression.intValue?, hm]

/-- An operation on ints has an int register to write to, and one source or two. -/
theorem operands_of_onInts? {op : BinaryOp} {operands : List Expression} {e : IntEffect}
    (h : (⟨l, op.opcode, operands⟩ : Instruction).onInts? store = some e) :
    ∃ d n, d.intRegister? = some n ∧
      ((∃ s v, operands = [.target d, s] ∧ s.intValue? store = some v) ∨
        ∃ a b u v, operands = [.target d, a, b] ∧ a.intValue? store = some u ∧
          b.intValue? store = some v) := by
  simp only [onInts?, op.ofOpcode?_opcode] at h
  split at h
  next d a b _ =>
    simp only [Option.bind_eq_bind, Option.bind_eq_some_iff] at h
    obtain ⟨n, hd, u, ha, v, hb, -⟩ := h
    exact ⟨d, n, hd, .inr ⟨a, b, u, v, rfl, ha, hb⟩⟩
  next d s _ =>
    simp only [Option.bind_eq_bind, Option.bind_eq_some_iff] at h
    obtain ⟨n, hd, v, hs, -⟩ := h
    exact ⟨d, n, hd, .inl ⟨s, v, rfl, hs⟩⟩
  all_goals simp_all

/-- What the constant source of an operation is simplified to does the same as the operation. -/
theorem onInts?_simplify_source (r : Reduction) (op : BinaryOp) (hd : d.intRegister? = some n)
    {s : Expression} {v : Int64} (hs : s.intValue? store = some v) :
    (simplify r ⟨l, op.opcode, [.target d, s]⟩).2.onInts? store =
      some (.write store n (op.onInts (store n) v)) := by
  obtain ⟨name, rfl⟩ | ⟨t, m, rfl, ht, rfl⟩ := Expression.intValue?_eq_some hs
  · exact onInts?_simplify r op hd name v
  · simp only [simplify]
    rw [onInts?_update op hd, hs, Option.map_some]

/-- Putting an int instruction into its cheaper form keeps what it does. -/
theorem onInts?_reduce (i : Instruction) (e : IntEffect) (h : i.onInts? store = some e) :
    i.reduce.2.onInts? store = some e := by
  unfold reduce
  split
  next hr =>
    obtain ⟨op, ho⟩ : ∃ op : BinaryOp, op.opcode = i.opcode := by
      simp only [reducible, List.mem_cons, List.not_mem_nil, or_false] at hr
      obtain ho | ho | ho | ho | ho := hr
      exacts [⟨.add, ho.symm⟩, ⟨.sub, ho.symm⟩, ⟨.mul, ho.symm⟩, ⟨.div, ho.symm⟩,
        ⟨.floorDiv, ho.symm⟩]
    obtain ⟨l, opcode, operands⟩ := i
    obtain rfl : op.opcode = opcode := ho
    -- Two operands are an update in place; three may repeat the first one.
    obtain ⟨d, n, hd, ⟨s, v, rfl, hs⟩ | ⟨a, b, u, v, rfl, ha, hb⟩⟩ := operands_of_onInts? h
    · rw [onInts?_update op hd, hs] at h
      have hdrop : dropRepeated? [.target d, s] = none := by
        unfold dropRepeated?
        split <;> simp_all
      simp only [hdrop]
      rw [onInts?_simplify_source .unchanged op hd hs]
      exact h
    · cases hdrop : dropRepeated? [.target d, a, b] with
      | none => simpa [simplify] using h
      | some rest =>
        obtain ⟨name, rfl⟩ | ⟨t, m, rfl, ht, rfl⟩ := Expression.intValue?_eq_some ha
        · simp [dropRepeated?] at hdrop
        · have hsame : d.same t ∧ [Expression.target d, b] = rest := by
            simpa [dropRepeated?] using hdrop
          obtain ⟨hst, rfl⟩ := hsame
          rw [onInts?_dropRepeated op hd hst (by simp [ht]), onInts?_update op hd, hb] at h
          dsimp only
          rw [onInts?_simplify_source .reduced op hd hb]
          exact h
  next => exact h

theorem onInts?_reduce_update (op : BinaryOp) (hd : d.intRegister? = some n) {s : Expression}
    {v : Int64} (hs : s.intValue? store = some v) :
    (reduce (.of op.opcode [.target d, s])).2.onInts? store =
      some (.write store n (op.onInts (store n) v)) := by
  refine onInts?_reduce _ _ ?_
  rw [Instruction.of, onInts?_update op hd, hs, Option.map_some]

theorem onInts?_reduce_assign (op : BinaryOp) (hd : d.intRegister? = some n) {a b : Expression}
    {u v : Int64} (ha : a.intValue? store = some u) (hb : b.intValue? store = some v) :
    (reduce (.of op.opcode [.target d, a, b])).2.onInts? store =
      some (.write store n (op.onInts u v)) := by
  refine onInts?_reduce _ _ ?_
  rw [Instruction.of, onInts?_assign op hd, ha, Option.bind_some, hb, Option.map_some]

/-- The sources of an operation give its value, whether or not the left one is left out. -/
theorem onInts?_reduce_sources (op : BinaryOp) (hd : d.intRegister? = some n) {a b : Expression}
    {u v : Int64} (ha : a.intValue? store = some u) (hb : b.intValue? store = some v) :
    (reduce (.of op.opcode (.target d :: Build.sources d a b))).2.onInts? store =
      some (.write store n (op.onInts u v)) := by
  obtain ⟨name, rfl⟩ | ⟨t, m, rfl, ht, rfl⟩ := Expression.intValue?_eq_some ha
  · exact onInts?_reduce_assign op hd ha hb
  unfold Build.sources
  dsimp only
  split
  next hsame =>
    obtain rfl := Target.intRegister?_eq_of_same hsame ht hd
    exact onInts?_reduce_update op hd hb
  next => exact onInts?_reduce_assign op hd ha hb

end Instruction

/-- What a statement does to the int registers, if it is an instruction on ints. Its label plays
no part. -/
def Statement.onInts? (st : Statement) (store : IntStore) : Option IntEffect :=
  st.asInstruction?.bind (·.onInts? store)

theorem Statement.onInts?_labelled (st : Statement) (label : Option String) (store : IntStore) :
    (st.labelled label).onInts? store = st.onInts? store := by
  cases label <;> cases st <;> rfl

/-- The operation `T := A op B` on ints, done when the program runs. -/
def IntEffect.assign (store : IntStore) (n : Nat) (a : Expression) (op : BinaryOp)
    (b : Expression) : Option IntEffect := do
  return .write store n (op.onInts (← a.intValue? store) (← b.intValue? store))

namespace Build

variable {b : Builder}

/-- An action adds one statement to the open subroutine, and it does this to the int registers
whatever they hold. -/
def Performs (x : Build Unit) (b : Builder) (effect : IntStore → Option IntEffect) : Prop :=
  (x.run b).1 = .ok () ∧
    ∃ st, b.Appends (x.run b).2 [st] ∧ ∀ store, (effect store).isSome ∧
      st.onInts? store = effect store

/-- Both operands are constants, and they have no value together. -/
def FoldFails (left : Expression) (op : BinaryOp) (right : Expression) : Prop :=
  ∃ a b e, left = .constant a ∧ right = .constant b ∧ fold a op b = .error e

theorem performs_emit {i : Instruction} {effect : IntStore → Option IntEffect}
    (ha : b.aborted = false) (hs : b.current.isSome)
    (hi : ∀ store, (effect store).isSome ∧ i.onInts? store = effect store) :
    Performs (emit (.instruction i)) b effect := by
  obtain ⟨hok, happ⟩ := appends_emit ha hs (.instruction i)
  refine ⟨hok, _, happ, fun store => ⟨(hi store).1, ?_⟩⟩
  rw [Statement.onInts?_labelled]
  exact (hi store).2

/-- A division by zero is reported, and the statement is the same. -/
theorem performs_emitReduced {i : Instruction} {effect : IntStore → Option IntEffect}
    (ha : b.aborted = false) (hs : b.current.isSome)
    (hmax : ((emitReduced i).run b).2.aborted = false)
    (hi : ∀ store, (effect store).isSome ∧ i.reduce.2.onInts? store = effect store) :
    Performs (emitReduced i) b effect := by
  by_cases hr : i.reduce.1 = .divisionByZero
  · have he : emitReduced i =
        (complain (.arithmetic .divisionByZero) >>= fun _ => emit (.instruction i.reduce.2)) := by
      simp only [emitReduced, hr, if_true]
    rw [he] at hmax ⊢
    obtain ⟨hrun, ha'⟩ := run_report_bind hmax
    unfold Performs
    rw [complain, hrun]
    exact performs_emit ha' hs hi
  · have he : emitReduced i = emit (.instruction i.reduce.2) := by
      simp only [emitReduced, hr, if_false]
    rw [he]
    exact performs_emit ha hs hi

/-- The value of two int operands is there for every store. -/
theorem isSome_assign {left right : Expression} (hl : left.IsInt) (hr : right.IsInt)
    (store : IntStore) (n : Nat) (op : BinaryOp) :
    (IntEffect.assign store n left op right).isSome := by
  obtain ⟨u, hu⟩ := Option.isSome_iff_exists.1 (hl store)
  obtain ⟨v, hv⟩ := Option.isSome_iff_exists.1 (hr store)
  simp [IntEffect.assign, hu, hv]

/-- Only a power leaves the ints. -/
theorem exists_int_of_ints {u v : Int64} {op : BinaryOp} {w : ConstantValue} (hp : op ≠ .pow)
    (h : Fold.ints u op v = .value w) : ∃ n, w = .int n := by
  cases op with
  | pow => exact absurd rfl hp
  | concat => cases h
  | div | floorDiv | mod =>
    simp only [Fold.ints] at h
    split at h
    · cases h
    · exact ⟨_, (Fold.Outcome.value.inj h).symm⟩
  | _ => exact ⟨_, (Fold.Outcome.value.inj h).symm⟩

theorem fold_ints {name name' : Option String} {u v : Int64} {op : BinaryOp} {c : Constant}
    (hp : op ≠ .pow) (h : fold ⟨name, .int u⟩ op ⟨name', .int v⟩ = .ok c) :
    ∃ w, c = .ofValue (.int w) ∧ op.onInts u v = some w := by
  cases hf : Fold.ints u op v with
  | value w =>
    obtain rfl : Constant.ofValue w = c := by simpa [fold, Fold.values, hf] using h
    obtain ⟨w, rfl⟩ := exists_int_of_ints hp hf
    exact ⟨w, rfl, by simp [BinaryOp.onInts, hf]⟩
  | divisionByZero => simp [fold, Fold.values, hf] at h
  | unsupported => simp [fold, Fold.values, hf] at h

variable {t : Target} {n : Nat} {left right : Expression} {op : BinaryOp}

/-- Two constants are folded, and a fold that fails is only reported. -/
theorem assignBinary_constants (ha : b.aborted = false) (hs : b.current.isSome)
    (ht : t.intRegister? = some n) {name name' : Option String} {u v : Int64} (hp : op ≠ .pow)
    (h : ∃ c, fold ⟨name, .int u⟩ op ⟨name', .int v⟩ = .ok c) :
    Performs (assignBinary t (.constant ⟨name, .int u⟩) op (.constant ⟨name', .int v⟩)) b
      fun store =>
        IntEffect.assign store n (.constant ⟨name, .int u⟩) op (.constant ⟨name', .int v⟩) := by
  obtain ⟨c, hc⟩ := h
  obtain ⟨w, rfl, hw⟩ := fold_ints hp hc
  unfold assignBinary
  simp only [hc]
  apply performs_emit ha hs
  intro store
  rw [Instruction.of, Instruction.onInts?_set ht]
  simp [IntEffect.assign, Expression.intValue?, Constant.ofValue, hw]

/-- Unless both operands are constants, the operation is left to the program. -/
theorem assignBinary_runtime (ha : b.aborted = false) (hs : b.current.isSome)
    (ht : t.intRegister? = some n) (hl : left.IsInt) (hr : right.IsInt)
    (hmax : ((assignBinary t left op right).run b).2.aborted = false)
    (hne : ¬∃ c d, left = .constant c ∧ right = .constant d) :
    Performs (assignBinary t left op right) b fun store =>
      IntEffect.assign store n left op right := by
  have he : assignBinary t left op right =
      emitReduced (.of op.opcode (.target t :: sources t left right)) := by
    unfold assignBinary
    split
    · exact absurd ⟨_, _, rfl, rfl⟩ hne
    · rfl
  rw [he] at hmax ⊢
  refine performs_emitReduced ha hs hmax fun store => ⟨isSome_assign hl hr store n op, ?_⟩
  obtain ⟨u, hu⟩ := Option.isSome_iff_exists.1 (hl store)
  obtain ⟨v, hv⟩ := Option.isSome_iff_exists.1 (hr store)
  rw [Instruction.onInts?_reduce_sources op ht hu hv]
  simp [IntEffect.assign, hu, hv]

theorem performs_augmentedAssign (ha : b.aborted = false) (hs : b.current.isSome)
    (ht : t.intRegister? = some n) (hr : right.IsInt)
    (hmax : ((augmentedAssign t op right).run b).2.aborted = false) :
    Performs (augmentedAssign t op right) b
      fun store => IntEffect.assign store n (.target t) op right := by
  have hl : (Expression.target t).IsInt := fun store => by simp [Expression.intValue?, ht]
  refine performs_emitReduced ha hs hmax fun store => ⟨isSome_assign hl hr store n op, ?_⟩
  obtain ⟨v, hv⟩ := Option.isSome_iff_exists.1 (hr store)
  have ht' : (Expression.target t).intValue? store = some (store n) := by
    simp [Expression.intValue?, ht]
  rw [Instruction.onInts?_reduce_update op ht hv]
  simp [IntEffect.assign, ht', hv]

/-- An assignment of an operation on ints leaves one statement behind, which does to the store
what the operation means, whatever the operands and whichever of them repeat the destination.
Only two constants that have no value together leave none. -/
theorem int_assignment_performs (ha : b.aborted = false) (hs : b.current.isSome)
    (ht : t.intRegister? = some n) (hl : left.IsInt) (hr : right.IsInt)
    (hp : op ≠ .pow) :
    (((assignBinary t left op right).run b).2.aborted = false →
      (FoldFails left op right →
        ((assignBinary t left op right).run b).1 = .ok () ∧
          b.Appends ((assignBinary t left op right).run b).2 []) ∧
      (¬FoldFails left op right →
        Performs (assignBinary t left op right) b
          fun store => IntEffect.assign store n left op right)) ∧
    (((augmentedAssign t op right).run b).2.aborted = false →
      Performs (augmentedAssign t op right) b
        fun store => IntEffect.assign store n (.target t) op right) := by
  refine ⟨fun hmax => ⟨?_, ?_⟩, performs_augmentedAssign ha hs ht hr⟩
  · rintro ⟨c, d, e, rfl, rfl, hf⟩
    have he : assignBinary t (.constant c) op (.constant d) = complain (.arithmetic e) := by
      simp only [assignBinary, hf]
    rw [he] at hmax ⊢
    obtain ⟨s, hs⟩ := Option.isSome_iff_exists.1 hs
    rw [complain, run_report_of_not_aborted hmax]
    exact ⟨rfl, s, hs, by simp [Builder.record, hs]⟩
  · intro hf
    by_cases hne : ∃ c d, left = .constant c ∧ right = .constant d
    · obtain ⟨c, d, rfl, rfl⟩ := hne
      obtain ⟨name, u, rfl⟩ := hl.of_constant
      obtain ⟨name', v, rfl⟩ := hr.of_constant
      refine assignBinary_constants ha hs ht hp ?_
      cases hc : fold ⟨name, .int u⟩ op ⟨name', .int v⟩ with
      | ok c => exact ⟨c, rfl⟩
      | error e => exact absurd ⟨_, _, e, rfl, rfl, hc⟩ hf
    · exact assignBinary_runtime ha hs ht hl hr hmax hne

/-- `$I0 = $I0 / 0` in a new subroutine: the division is reported, and left to trap. -/
theorem int_assignment_performs_division :
    let b := ((Builder.new .standard).openSub "main").2
    let t := Target.register .int 0
    Performs (assignBinary t (.target t) .div (.int 0)) b
      (fun store => IntEffect.assign store 0 (.target t) .div (.int 0)) ∧
    Performs (augmentedAssign t .div (.int 0)) b
      (fun store => IntEffect.assign store 0 (.target t) .div (.int 0)) := by
  intro b t
  have ht : t.intRegister? = some 0 := rfl
  have hl : (Expression.target t).IsInt := fun _ => rfl
  have hr : (Expression.int 0).IsInt := fun _ => rfl
  have h := int_assignment_performs (b := b) rfl rfl ht hl hr (by decide : BinaryOp.div ≠ .pow)
  refine ⟨(h.1 ?_).2 ?_, h.2 ?_⟩
  · decide +kernel
  · rintro ⟨a, b, e, ha, -⟩
    cases ha
  · decide +kernel

end Build
end PirFrontend
