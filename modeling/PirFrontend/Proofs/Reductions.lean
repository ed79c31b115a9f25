import PirFrontend.Code.Reduction

/-!
Reducing an instruction more than once. One pass leaves out one source that repeats the
destination, so an instruction that repeats it twice is reduced again by the next pass. All other
instructions are settled after the first.
-/
namespace PirFrontend

/-- The opcodes that replace others act on a destination alone. -/
theorem Simplification.destination_mem {opcode opcode' : String} {zero one : Bool}
    (h : find? opcode zero one = some (.destination opcode')) :
    opcode' ∈ ["inc", "dec", "null"] := by
  unfold find? at h
  split at h
  case h_6 => cases h
  all_goals
    cases zero <;> cases one <;>
      simp only [Bool.false_eq_true, if_true, if_false, Option.some.injEq, destination.injEq,
        reduceCtorEq] at h
    all_goals simp [← h]

namespace Instruction

/-- Both the first and the second source repeat the destination, and another one follows. -/
def RepeatsTwice (i : Instruction) : Prop :=
  ∃ d s t e rest, i.operands = .target d :: .target s :: .target t :: e :: rest ∧
    d.same s ∧ d.same t

theorem dropRepeated?_eq_some {operands rest : List Expression}
    (h : dropRepeated? operands = some rest) :
    ∃ d s e es, operands = .target d :: .target s :: e :: es ∧ d.same s ∧
      rest = .target d :: e :: es := by
  unfold dropRepeated? at h
  split at h
  next d s e es =>
    split at h
    next hs => exact ⟨d, s, e, es, rfl, hs, (Option.some.inj h).symm⟩
    next => cases h
  next => cases h

theorem repeatsTwice_iff {i : Instruction} :
    i.RepeatsTwice ↔
      ∃ rest, dropRepeated? i.operands = some rest ∧ (dropRepeated? rest).isSome := by
  constructor
  · rintro ⟨d, s, t, e, rest, ho, hs, ht⟩
    refine ⟨.target d :: .target t :: e :: rest, ?_, ?_⟩
    · rw [ho]
      exact if_pos hs
    · rw [show dropRepeated? (.target d :: .target t :: e :: rest) =
        some (.target d :: e :: rest) from if_pos ht]
      rfl
  · rintro ⟨rest, hdrop, hagain⟩
    obtain ⟨d, s, e, es, ho, hs, rfl⟩ := dropRepeated?_eq_some hdrop
    obtain ⟨rest', hrest⟩ := Option.isSome_iff_exists.1 hagain
    obtain ⟨d', t, e', es', hcons, ht, -⟩ := dropRepeated?_eq_some hrest
    obtain ⟨hd, rfl, rfl⟩ := by simpa using hcons
    subst hd
    exact ⟨d, s, t, e', es', ho, hs, ht⟩

/-- The rule for a constant source gives an instruction that is not reduced any more, or there
is none. -/
theorem simplify_settled (r : Reduction) (i : Instruction) :
    (simplify r i).2 = i ∨ (simplify r i).2.opcode ∉ reducible ∧ i.operands.length = 2 := by
  unfold simplify
  split
  next d c hoperands =>
    have hlength : i.operands.length = 2 := by simp [hoperands]
    split
    next => exact .inr ⟨show "noop" ∉ reducible by decide, hlength⟩
    next opcode hfind =>
      have hmem : ∀ o ∈ ["inc", "dec", "null"], o ∉ reducible := by decide
      exact .inr ⟨hmem opcode (Simplification.destination_mem hfind), hlength⟩
    next => exact .inl rfl
    next => exact .inl rfl
  next => exact .inl rfl

theorem length_simplify_le (r : Reduction) (i : Instruction) :
    (simplify r i).2.operands.length ≤ i.operands.length := by
  unfold simplify
  split
  next d c hoperands => split <;> simp [hoperands]
  next => exact Nat.le_refl _

theorem simplify_snd (r r' : Reduction) (i : Instruction) :
    (simplify r i).2 = (simplify r' i).2 := by
  unfold simplify
  split
  · split <;> rfl
  · rfl

theorem reduce_of_not_mem {i : Instruction} (h : i.opcode ∉ reducible) : i.reduce.2 = i := by
  unfold reduce
  rw [if_neg h]

theorem reduce_of_none {i : Instruction} (h : i.opcode ∈ reducible)
    (hdrop : dropRepeated? i.operands = none) : i.reduce.2 = (simplify .unchanged i).2 := by
  unfold reduce
  rw [if_pos h, hdrop]

theorem reduce_of_some {i : Instruction} (h : i.opcode ∈ reducible) {rest : List Expression}
    (hdrop : dropRepeated? i.operands = some rest) :
    i.reduce.2 = (simplify .reduced { i with operands := rest }).2 := by
  unfold reduce
  rw [if_pos h, hdrop]

/-- A pass that drops a repeated source is not without effect. -/
theorem reduce_ne_of_some {i : Instruction} (h : i.opcode ∈ reducible)
    (hdrop : (dropRepeated? i.operands).isSome) : i.reduce.2 ≠ i := by
  obtain ⟨rest, hrest⟩ := Option.isSome_iff_exists.1 hdrop
  obtain ⟨d, s, e, es, ho, -, rfl⟩ := dropRepeated?_eq_some hrest
  rw [reduce_of_some h hrest]
  have hlength := length_simplify_le .reduced { i with operands := .target d :: e :: es }
  intro heq
  rw [heq, ho] at hlength
  simp only [List.length_cons] at hlength
  omega

/-- Every pass but the first leaves an instruction as it is, unless it is an arithmetic one that
repeats its destination twice in front of another source. -/
theorem reduce_reduce_iff (i : Instruction) :
    i.reduce.2.reduce.2 = i.reduce.2 ↔ ¬(i.opcode ∈ reducible ∧ i.RepeatsTwice) := by
  by_cases hr : i.opcode ∈ reducible
  case neg => simp [reduce_of_not_mem hr, hr]
  simp only [hr, true_and, repeatsTwice_iff]
  cases hdrop : dropRepeated? i.operands with
  | none =>
    suffices i.reduce.2.reduce.2 = i.reduce.2 by simpa
    have he := reduce_of_none hr hdrop
    obtain hs | ⟨hs, -⟩ := simplify_settled .unchanged i
    · rw [he, hs]
      exact he.trans hs
    · rw [he]
      exact reduce_of_not_mem hs
  | some rest =>
    have he := reduce_of_some hr hdrop
    generalize hj : ({ i with operands := rest } : Instruction) = j at he
    have hjr : j.opcode ∈ reducible := hj ▸ hr
    have hjo : j.operands = rest := hj ▸ rfl
    obtain hs | ⟨hs, htwo⟩ := simplify_settled .reduced j
    · -- The source that was dropped is the only thing that changed.
      rw [he, hs]
      cases hagain : dropRepeated? rest with
      | none =>
        have hfix : j.reduce.2 = j :=
          (reduce_of_none hjr (hjo ▸ hagain)).trans ((simplify_snd _ _ _).trans hs)
        simp [hfix, hagain]
      | some rest' =>
        have hne : j.reduce.2 ≠ j := reduce_ne_of_some hjr (by simp [hjo, hagain])
        simp [hne, hagain]
    · -- Two operands are left, and none of them can be dropped.
      have hnone : dropRepeated? rest = none := by
        cases hagain : dropRepeated? rest with
        | none => rfl
        | some rest' =>
          obtain ⟨d, s, e, es, ho, -⟩ := dropRepeated?_eq_some hagain
          simp [hjo, ho] at htwo
      simp [he, reduce_of_not_mem hs, hnone]

example (d s : Nat) :
    let d := Expression.target (.register .int d)
    let s := Expression.target (.register .int s)
    let i := of "add" [d, d, d, s]
    i.reduce.2 = of "add" [d, d, s] ∧ i.reduce.2.reduce.2 = of "add" [d, s] := by
  simp [of, reduce, reducible, dropRepeated?, simplify, Target.same, Storage.same,
    Target.register, Target.ofStorage]

end Instruction
end PirFrontend
