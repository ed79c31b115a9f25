import PirFrontend.Proofs.Building

/-!
Constants under a name. Wherever a name that stands for a constant may be written, the outcome is
that of the constant itself, save for one case: a zero that is written out makes the target null,
and a named zero is copied.
-/
namespace PirFrontend

/-- The constant without its name. -/
def Constant.unnamed (c : Constant) : Constant := .ofValue c.value

/-- The operand without the name of the constant that it is. -/
def Expression.unnamed : Expression → Expression
  | .constant c => .constant c.unnamed
  | e => e

/-- The instruction without the names of the constants it takes. -/
def Instruction.unnamed (i : Instruction) : Instruction :=
  { i with operands := i.operands.map Expression.unnamed }

/-- What was appended is known from the builder, up to the label that it was given. -/
theorem Builder.appended_instruction {b : Builder} {i j : Instruction} (hs : b.current.isSome)
    (h : b.appended (.instruction i) = b.appended (.instruction j)) :
    i.opcode = j.opcode ∧ i.operands = j.operands := by
  obtain ⟨s, hs⟩ := Option.isSome_iff_exists.1 hs
  have hcurrent := congrArg Builder.current h
  simp only [appended, modifySub, hs, Option.map_some, Option.some.injEq] at hcurrent
  have hstatements := congrArg Subroutine.statements hcurrent
  have hlast := List.append_cancel_left hstatements
  cases hl : b.pendingLabel with
  | none =>
    rw [hl] at hlast
    cases hlast
    exact ⟨rfl, rfl⟩
  | some label =>
    simp only [hl, Statement.labelled, Statement.withLabel, List.cons.injEq, and_true,
      Statement.instruction.injEq, Instruction.mk.injEq, true_and] at hlast
    exact hlast

namespace Build

/-- Both actions succeed with one instruction each, and up to the names of their constants these
are the same. Nothing else becomes of the builder. -/
def EmitAlike (b : Builder) (x y : Build Unit) : Prop :=
  ∃ i j : Instruction, x.run b = (.ok (), b.appended (.instruction i)) ∧
    y.run b = (.ok (), b.appended (.instruction j)) ∧ i.unnamed = j.unnamed

variable {b : Builder} {name : String} {c d : Constant}

theorem run_assignOp_constant (ha : b.aborted = false) (hs : b.current.isSome)
    (hsymbol : b.lookup name = none) (hconstant : b.lookupConstant name = some c) (t : Target) :
    (assignOp t name []).run b =
      (.ok (), b.appended (.instruction (.of "set" [.target t, .constant c]))) := by
  have hset : (assignOp t name []).run b = (emitOp "set" [.target t, .constant c]).run b := by
    unfold assignOp
    rw [run_bind, run_get]
    simp only [hsymbol, hconstant]
  rw [hset]
  exact run_emit_appended ha hs _

/-- A zero that is written out is no operand. -/
theorem run_assignExpression_zero (ha : b.aborted = false) (hs : b.current.isSome)
    (hd : d.numericEquals 0 = true) (t : Target) :
    (assignExpression t (.constant d)).run b =
      (.ok (), b.appended (.instruction (.of "null" [.target t]))) := by
  have hnull : assignExpression t (.constant d) = nullTarget t := by
    obtain ⟨n, v⟩ := d
    cases v with
    | int v => exact if_pos (beq_iff_eq.1 hd)
    | num v => exact if_pos hd
    | string s => cases hd
    | pmc s => cases hd
  rw [hnull]
  exact run_emit_appended ha hs _

/-- Any other constant is copied, a number without its name. -/
theorem run_assignExpression_nonzero (ha : b.aborted = false) (hs : b.current.isSome)
    (hd : d.numericEquals 0 = false) (t : Target) :
    ∃ e : Constant, e.value = d.value ∧ (assignExpression t (.constant d)).run b =
      (.ok (), b.appended (.instruction (.of "set" [.target t, .constant e]))) := by
  have hset : ∃ e : Constant, e.value = d.value ∧
      assignExpression t (.constant d) = emitOp "set" [.target t, .constant e] := by
    obtain ⟨n, v⟩ := d
    cases v with
    | int v => exact ⟨.ofValue (.int v), rfl, if_neg (beq_eq_false_iff_ne.1 hd)⟩
    | num v => exact ⟨.ofValue (.num v), rfl, if_neg (Bool.not_eq_true _ ▸ hd)⟩
    | string s => exact ⟨⟨n, .string s⟩, rfl, rfl⟩
    | pmc s => exact ⟨⟨n, .pmc s⟩, rfl, rfl⟩
  obtain ⟨e, he, hset⟩ := hset
  rw [hset]
  exact ⟨e, he, run_emit_appended ha hs _⟩

theorem exists_truth (hc : c.type ≠ .pmc) : ∃ value, c.truth = .ok value := by
  obtain ⟨n, v⟩ := c
  cases v with
  | int v => exact ⟨_, rfl⟩
  | num v => exact ⟨_, rfl⟩
  | string s => exact ⟨_, rfl⟩
  | pmc s => exact absurd rfl hc

/-- A condition reads the value of a constant only. -/
theorem conditionalVariable_eq (hsymbol : b.lookup name = none)
    (hconstant : b.lookupConstant name = some c) (hc : c.type ≠ .pmc) (hd : d.value = c.value)
    (p : Polarity) (label : String) :
    (conditionalVariable p false name label).run b = (conditionalConstant p d label).run b := by
  have htruth : d.truth = c.truth := by
    unfold Constant.truth
    rw [hd]
  unfold conditionalVariable
  rw [run_bind, run_get]
  simp only [hsymbol, hconstant, if_neg hc]
  rw [conditionalConstant, conditionalConstant, htruth]

/-- A name that stands for an int, a num or a string does what a literal of the value does, except
that a zero is copied under its name and makes the target null when it is written out. -/
theorem named_constant_as_literal (ha : b.aborted = false) (hs : b.current.isSome)
    (hsymbol : b.lookup name = none) (hconstant : b.lookupConstant name = some c)
    (hc : c.type ≠ .pmc) (hd : d.value = c.value) (t : Target) (p : Polarity) (label : String) :
    (c.numericEquals 0 = false →
      EmitAlike b (assignOp t name []) (assignExpression t (.constant d))) ∧
    (c.numericEquals 0 = true →
      (assignOp t name []).run b =
        (.ok (), b.appended (.instruction (.of "set" [.target t, .constant c]))) ∧
      (assignExpression t (.constant d)).run b =
        (.ok (), b.appended (.instruction (.of "null" [.target t])))) ∧
    (conditionalVariable p false name label).run b = (conditionalConstant p d label).run b ∧
    ∃ value, c.truth = .ok value ∧ (conditionalConstant p d label).run b =
      (.ok (.known value), b.appended (.instruction (p.constantBranch value label))) := by
  have hzero : d.numericEquals 0 = c.numericEquals 0 := by
    unfold Constant.numericEquals
    rw [hd]
  have hnamed := run_assignOp_constant ha hs hsymbol hconstant t
  refine ⟨?_, ?_, conditionalVariable_eq hsymbol hconstant hc hd p label, ?_⟩
  · intro hne
    obtain ⟨e, he, hliteral⟩ := run_assignExpression_nonzero ha hs (hzero.trans hne) t
    refine ⟨_, _, hnamed, hliteral, ?_⟩
    simp only [Instruction.unnamed, Instruction.of, List.map_cons, List.map_nil,
      Expression.unnamed, Constant.unnamed, he, hd]
  · intro heq
    exact ⟨hnamed, run_assignExpression_zero ha hs (hzero.trans heq) t⟩
  · obtain ⟨value, hvalue⟩ := exists_truth hc
    refine ⟨value, hvalue, ?_⟩
    have htruth : d.truth = .ok value := by
      rw [← hvalue]
      unfold Constant.truth
      rw [hd]
    simp only [conditionalConstant, htruth, conditionalKnown]
    rw [run_bind_ok (run_emit_appended ha hs _)]
    rfl

/-- `.const num RATE = 1.5`, and the value assigned and tested under its name. -/
theorem named_constant_as_literal_rate :
    let b := ((declareConstant "RATE" (.num 1.5)).run ((Builder.new .standard).openSub "main").2).2
    let t := Target.register .num 0
    let c := Constant.named "RATE" (.num 1.5)
    (c.numericEquals 0 = false →
      EmitAlike b (assignOp t "RATE" []) (assignExpression t (.num 1.5))) ∧
    (c.numericEquals 0 = true →
      (assignOp t "RATE" []).run b =
        (.ok (), b.appended (.instruction (.of "set" [.target t, .constant c]))) ∧
      (assignExpression t (.num 1.5)).run b =
        (.ok (), b.appended (.instruction (.of "null" [.target t])))) ∧
    (conditionalVariable .positive false "RATE" "L").run b =
      (conditionalConstant .positive (.ofValue (.num 1.5)) "L").run b ∧
    ∃ value, c.truth = .ok value ∧
      (conditionalConstant .positive (.ofValue (.num 1.5)) "L").run b = (.ok (.known value),
        b.appended (.instruction (Polarity.positive.constantBranch value "L"))) :=
  named_constant_as_literal rfl rfl rfl rfl (by decide) rfl _ .positive "L"

/-- `.const int ZERO = 0`: the name is copied where a literal of the value makes the target null. -/
theorem not_emitAlike_zero :
    let b := ((declareConstant "ZERO" (.int 0)).run ((Builder.new .standard).openSub "main").2).2
    let t := Target.register .int 0
    let c := Constant.named "ZERO" (.int 0)
    b.aborted = false ∧ b.current.isSome ∧ b.lookup "ZERO" = none ∧
      b.lookupConstant "ZERO" = some c ∧ c.type ≠ .pmc ∧
      ¬EmitAlike b (assignOp t "ZERO" []) (assignExpression t (.constant c)) := by
  intro b t c
  have hsymbol : b.lookup "ZERO" = none := rfl
  have hconstant : b.lookupConstant "ZERO" = some c := rfl
  refine ⟨rfl, rfl, hsymbol, hconstant, nofun, ?_⟩
  rintro ⟨i, j, hi, hj, hsame⟩
  rw [run_assignOp_constant rfl rfl hsymbol hconstant] at hi
  rw [run_assignExpression_zero rfl rfl rfl] at hj
  have hcopied := (Builder.appended_instruction rfl (congrArg Prod.snd hi)).1
  have hnull := (Builder.appended_instruction rfl (congrArg Prod.snd hj)).1
  have hopcode : i.unnamed.opcode = j.unnamed.opcode := congrArg Instruction.opcode hsame
  -- Taking the names away leaves the opcodes, and they differ.
  change i.opcode = j.opcode at hopcode
  rw [← hcopied, ← hnull] at hopcode
  exact absurd hopcode (by decide)

end Build
end PirFrontend
