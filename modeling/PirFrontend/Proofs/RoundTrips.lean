import PirFrontend.Proofs.Rendering
import PirFrontend.Proofs.Limits
import PirFrontend.Proofs.Tables

/-!
Instructions written out and compiled again. A subroutine whose lines are the texts of instructions
has these instructions for its statements.
-/
namespace PirFrontend

open PirFrontend.Parser (Place)

namespace Instruction

/-- Instructions that can be written out: known opcodes and operands with a text of their own, in
their cheapest form. A key as the first operand would be taken for the index of a name. -/
structure Writable (opcodes : OpcodeTable) (i : Instruction) : Prop where
  known : opcodes.contains i.opcode = true
  word : IsWord i.opcode
  name : Keyword.ofSpelling? i.opcode = none
  operands : ∀ e ∈ i.operands, e.IsOperand
  first : ∀ k, i.operands.head? ≠ some (.key k)
  label : ∀ name ∈ i.label, IsWord name
  unchanged : i.reduce.1 = .unchanged

/-- The names of the labels that stand before instructions. -/
def labelsOf (is : List Instruction) : List String := is.filterMap (·.label)

/-- The source text of a subroutine with the name `main` and these instructions, each on a line. -/
def mainSource (is : List Instruction) : String :=
  ".sub main\n" ++ String.join (is.map fun i => i.render ++ "\n") ++ ".end\n"

theorem simplify_unchanged {r : Reduction} {i : Instruction}
    (h : (simplify r i).1 = .unchanged) : r = .unchanged ∧ simplify r i = (.unchanged, i) := by
  unfold simplify at h ⊢
  split at h
  next d c _ =>
    cases hfind : Simplification.find? i.opcode (c.numericEquals 0) (c.numericEquals 1) with
    | none =>
      rw [hfind] at h
      obtain rfl : r = .unchanged := h
      exact ⟨rfl, rfl⟩
    | some found =>
      rw [hfind] at h
      cases found <;> cases h
  next =>
    obtain rfl : r = .unchanged := h
    exact ⟨rfl, rfl⟩

/-- An instruction in its cheapest form stays as it is. -/
theorem reduce_unchanged {i : Instruction} (h : i.reduce.1 = .unchanged) :
    i.reduce = (.unchanged, i) := by
  unfold reduce at h ⊢
  split at h
  next hreducible =>
    rw [if_pos hreducible]
    cases hdrop : dropRepeated? i.operands with
    | some operands =>
      rw [hdrop] at h
      cases (simplify_unchanged h).1
    | none =>
      rw [hdrop] at h
      exact (simplify_unchanged h).2
  next hreducible => rw [if_neg hreducible]

/-- The label has no part in the reduction. -/
theorem reduce_label (label : Option String) (opcode : String) (operands : List Expression) :
    (⟨label, opcode, operands⟩ : Instruction).reduce.1 = (of opcode operands).reduce.1 := by
  have hsimplify (r : Reduction) (operands : List Expression) :
      (simplify r ⟨label, opcode, operands⟩).1 = (simplify r ⟨none, opcode, operands⟩).1 := by
    unfold simplify
    dsimp only
    split
    · split <;> rfl
    · rfl
  unfold reduce of
  dsimp only
  split
  · cases dropRepeated? operands with
    | none => exact hsimplify _ _
    | some rest => exact hsimplify _ _
  · rfl

end Instruction

/-! The builder in the body of `main` -/

/-- These instructions were built and nothing was reported or declared. A label may wait for the
next one. -/
structure Builder.Holds (b : Builder) (opcodes : OpcodeTable) (is : List Instruction)
    (pending : Option String) : Prop where
  opcodes : b.opcodes = opcodes
  unit : b.unit = .empty
  pendingLabel : b.pendingLabel = pending
  diagnostics : b.diagnostics = []
  aborted : b.aborted = false
  body : ∃ s, b.current = some s ∧ s.name = "main" ∧ s.constants = .empty ∧ s.symbols = .empty ∧
    s.statements = is.map .instruction ∧
    ∀ entry ∈ s.labels.entries, entry.1 ∈ Instruction.labelsOf is ++ pending.toList

/-- A subroutine that was just opened is empty. -/
theorem Builder.holds_openSub (o : BuildOptions) (line : Nat) :
    (((Builder.new o).beginStatement line).openSub "main").2.Holds
      (OpcodeTable.parrot.extend o.extraOpcodes) [] none :=
  ⟨rfl, rfl, rfl, rfl, rfl, _, rfl, rfl, rfl, rfl, rfl, nofun⟩

namespace Builder.Holds

variable {b : Builder} {opcodes : OpcodeTable} {is : List Instruction} {pending : Option String}

theorem beginStatement (h : b.Holds opcodes is pending) (line : Nat) :
    (b.beginStatement line).Holds opcodes is pending :=
  ⟨h.opcodes, h.unit, h.pendingLabel, h.diagnostics, h.aborted, h.body⟩

theorem dropInstruction (h : b.Holds opcodes is pending) :
    b.dropInstruction.Holds opcodes is pending :=
  ⟨h.opcodes, h.unit, h.pendingLabel, h.diagnostics, h.aborted, h.body⟩

theorem beginInstruction (h : b.Holds opcodes is pending) {opcode : String} :
    (b.beginInstruction opcode).Holds opcodes is pending :=
  ⟨h.opcodes, h.unit, h.pendingLabel, h.diagnostics, h.aborted, h.body⟩

theorem bare (h : b.Holds opcodes is pending) : b.Bare := by
  obtain ⟨s, hs, -, hconstants, hsymbols, -⟩ := h.body
  intro name
  have hlookup : b.lookup name = none := by
    rw [Builder.lookup, hs, Option.bind_some, hsymbols]
    rfl
  have hconstant : b.lookupConstant name = none := by
    rw [Builder.lookupConstant, hs, Option.bind_some, hconstants, h.unit]
    rfl
  simp only [Builder.identifierOperand, hlookup, hconstant]

/-- A new label waits for the next instruction. -/
theorem setLabel (h : b.Holds opcodes is none) {name : String}
    (hname : name ∉ Instruction.labelsOf is) :
    ∃ b', (Build.setLabel name).run b = (.ok (), b') ∧ b'.Holds opcodes is (some name) := by
  obtain ⟨s, hs, hmain, hconstants, hsymbols, hstatements, hlabels⟩ := h.body
  have hnew : s.labels.contains name = false := by
    rw [Table.contains, Option.isSome_eq_false_iff, Option.isNone_iff_eq_none,
      Option.eq_none_iff_forall_ne_some]
    intro index hindex
    have hentry := hlabels _ (Table.mem_of_get? hindex)
    rw [Option.toList_none, List.append_nil] at hentry
    exact hname hentry
  refine ⟨{ b with
    current := some { s with labels := s.labels.insert name s.statements.length }
    pendingLabel := some name }, ?_, ?_⟩
  · unfold Build.setLabel
    rw [run_bind_ok (Build.run_currentSub hs), hnew]
    simp [Builder.modifySub, hs]
  · refine ⟨h.opcodes, h.unit, rfl, h.diagnostics, h.aborted, _, rfl, hmain, hconstants, hsymbols,
      hstatements, fun entry hentry => ?_⟩
    obtain hold | rfl := Table.mem_insert hentry
    · exact List.mem_append_left _ (by simpa using hlabels entry hold)
    · exact List.mem_append_right _ (List.mem_singleton_self name)

/-- An instruction goes to the end of the body, under the label that waited. -/
theorem finishInstruction (h : b.Holds opcodes is pending) {opcode : String}
    {operands : List Expression} (hknown : opcodes.contains opcode = true)
    (hunchanged : (⟨pending, opcode, operands⟩ : Instruction).reduce.1 = .unchanged) :
    ∃ b', Build.finishInstruction.run
        { b with pendingInstruction := some (.of opcode operands) } = (.ok (), b') ∧
      b'.Holds opcodes (is ++ [⟨pending, opcode, operands⟩]) none := by
  obtain ⟨s, hs, hmain, hconstants, hsymbols, hstatements, hlabels⟩ := h.body
  rw [Instruction.reduce_label] at hunchanged
  -- What no reduction changes is emitted as it was written.
  have hreduce := Instruction.reduce_unchanged hunchanged
  have hemit : Build.emitReduced (.of opcode operands) =
      Build.emit (.instruction (.of opcode operands)) := by
    unfold Build.emitReduced
    rw [hreduce]
    rfl
  have hlabelled : (Statement.instruction (.of opcode operands)).labelled pending =
      .instruction ⟨pending, opcode, operands⟩ := by
    cases pending <;> rfl
  have hrun := Build.run_emit (b := { b with pendingInstruction := none }) h.aborted hs
    (.instruction (.of opcode operands))
  refine ⟨{ b with
    pendingInstruction := none
    pendingLabel := none
    current := some { s with statements := s.statements ++
      [(Statement.instruction (.of opcode operands)).labelled b.pendingLabel] } }, ?_, ?_⟩
  · rw [Build.run_finishInstruction rfl, if_pos (h.opcodes ▸ hknown), hemit]
    exact hrun
  · refine ⟨h.opcodes, h.unit, rfl, h.diagnostics, h.aborted, _, rfl, hmain, hconstants, hsymbols,
      ?_, fun entry hentry => ?_⟩
    · simp only [h.pendingLabel, hlabelled, hstatements, List.map_append, List.map_cons,
        List.map_nil]
    · have hmem := hlabels entry hentry
      have hlabelsOf : Instruction.labelsOf (is ++ [⟨pending, opcode, operands⟩]) =
          Instruction.labelsOf is ++ pending.toList := by
        cases pending <;> simp [Instruction.labelsOf]
      rwa [Option.toList_none, List.append_nil, hlabelsOf]

/-- A body that is closed is all that was built. -/
theorem finish_closeSub (h : b.Holds opcodes is pending) (line : Nat) :
    ((b.beginStatement line).closeSub.2).finish.2 = [] ∧
      ∃ s, ((b.beginStatement line).closeSub.2).finish.1.subroutines = [s] ∧ s.name = "main" ∧
        s.statements = is.map .instruction := by
  obtain ⟨s, hs, hmain, -, -, hstatements, -⟩ := h.body
  have hclosed : (b.beginStatement line).closeSub.2 = { b with
      unit := { b.unit with subroutines := b.unit.subroutines ++ [s] }
      current := none
      pendingLabel := none
      pendingInstruction := none
      pendingCall := none
      line := line } := by
    simp only [Builder.closeSub, Builder.beginStatement, hs]
  rw [hclosed]
  refine ⟨h.diagnostics, s, ?_, hmain, hstatements⟩
  simp only [Builder.finish, Builder.closeSub, h.unit]
  rfl

end Builder.Holds

/-! Lines -/

variable {l : Lexer} {tail : List Char} {b : Builder} {opcodes : OpcodeTable}
  {is : List Instruction}

/-- The line of an instruction builds that instruction. -/
theorem readBack_line {i : Instruction} (hi : i.Writable opcodes) (hb : b.Holds opcodes is none)
    (hlabel : ∀ name ∈ i.label, name ∉ Instruction.labelsOf is)
    (hrest : l.rest = i.render.toList ++ '\n' :: tail) :
    ∃ (l' : Lexer) (b' : Builder), l'.rest = tail ∧ b'.Holds opcodes (is ++ [i]) none ∧
      Parser.bodyLine.Yields l.steps b .body l'.steps b' := by
  obtain ⟨label, opcode, operands⟩ := i
  rw [toList_render] at hrest
  cases label with
  | none =>
    rw [List.nil_append, List.append_assoc] at hrest
    obtain ⟨t, L, l', hsteps, ht, hrest', hstatement⟩ :=
      readBack_opcode hi.word hi.name hi.operands hi.first [] hrest nofun
    have hbegun := hb.beginStatement t.line
    obtain ⟨b', hfinish, hb'⟩ := hbegun.finishInstruction hi.known hi.unchanged
    have hstatement := hstatement _ b' hbegun.beginInstruction.bare hfinish
    rw [hsteps] at hstatement ⊢
    refine ⟨l', b'.dropInstruction, hrest', hb'.dropInstruction, ?_⟩
    exact Parser.bodyLine_statement (.inl ht)
      (Parser.labelledStatement_unlabelled (by rw [ht]; nofun) hstatement)
  | some name =>
    have hrest : l.rest = name.toList ++ ':' :: (' ' :: (opcode.toList ++ (operandText operands ++
        '\n' :: tail))) := by
      rw [hrest]
      simp
    -- The label is read and set first, and the opcode behind it as on a line of its own.
    obtain ⟨t, l₁, hsteps, ht, hlexeme, hrest₁, -⟩ :=
      Lexer.reads_label (hi.label name rfl) hrest (.cons rfl _)
    obtain ⟨u, L, l', hsteps₁, hu, hrest', hstatement⟩ :=
      readBack_opcode hi.word hi.name hi.operands hi.first [' '] hrest₁ (by simp [isBlank])
    rw [String.ofList_toList] at hlexeme
    obtain ⟨b₁, hset, hb₁⟩ := (hb.beginStatement t.line).setLabel (hlabel name rfl)
    obtain ⟨b', hfinish, hb'⟩ := hb₁.finishInstruction hi.known hi.unchanged
    have hstatement := hstatement _ b' hb₁.beginInstruction.bare hfinish
    rw [hsteps₁] at hstatement
    rw [hsteps, hsteps₁]
    refine ⟨l', b'.dropInstruction, hrest', hb'.dropInstruction, ?_⟩
    exact Parser.bodyLine_statement (.inr ht)
      (Parser.labelledStatement_labelled ht (hlexeme ▸ hset) (by rw [hu]; rfl) hstatement)

/-- The lines of instructions build them one after the other. -/
theorem readBack_lines {more : List Instruction} (hmore : ∀ i ∈ more, i.Writable opcodes)
    (hb : b.Holds opcodes is none) (hlabels : (Instruction.labelsOf (is ++ more)).Nodup)
    (hrest : l.rest = (more.flatMap fun i => i.render.toList ++ ['\n']) ++ ".end\n".toList) :
    ∃ b' : Builder, (Parser.linesFrom .body).Yields l.steps b () [] b' ∧ b'.finish.2 = [] ∧
      ∃ s, b'.finish.1.subroutines = [s] ∧ s.name = "main" ∧
        s.statements = (is ++ more).map .instruction := by
  -- The induction is on the lines that are left. What the others built is in `is`.
  induction more generalizing l b is with
  | nil =>
    obtain ⟨t, l₁, hsteps, ht, -, hrest₁, -⟩ :=
      Lexer.reads_directive .endSub (c := 'e') (w := ['n', 'd']) rfl rfl (List.all_eq_true.1 rfl)
        hrest (.cons rfl [])
    obtain ⟨u, l₂, hsteps₁, hu, -, hrest₂, -⟩ := Lexer.reads_newline hrest₁
    have hend : l₂.steps = [] := by
      apply Lexer.steps_of_done
      rw [Lexer.next_eq, hrest₂]
      rfl
    rw [hsteps, hsteps₁, hend, List.append_nil]
    exact ⟨_, Parser.linesFrom_more (.map some (Parser.bodyLine_end ht (by rw [hu]; rfl)))
      (Parser.linesFrom_none (Parser.item_none _)), hb.finish_closeSub t.line⟩
  | cons i more ih =>
    have hfresh : ∀ name ∈ i.label, name ∉ Instruction.labelsOf is := by
      intro name hname hold
      rw [Instruction.labelsOf, List.filterMap_append, List.nodup_append] at hlabels
      exact hlabels.2.2 name hold name
        (List.mem_filterMap.mpr ⟨i, List.mem_cons_self, hname⟩) rfl
    rw [List.flatMap_cons, List.append_assoc, List.append_assoc] at hrest
    obtain ⟨l₁, b₁, hrest₁, hb₁, hline⟩ :=
      readBack_line (hmore i List.mem_cons_self) hb hfresh hrest
    have hassoc : is ++ [i] ++ more = is ++ i :: more := List.append_cons is i more |>.symm
    obtain ⟨b', hlines, hreported, s, hs, hmain, hstatements⟩ :=
      ih (fun j hj => hmore j (List.mem_cons_of_mem i hj)) hb₁ (hassoc ▸ hlabels) hrest₁
    rw [hassoc] at hstatements
    exact ⟨b', Parser.linesFrom_more (.map some hline) hlines, hreported, s, hs, hmain,
      hstatements⟩

theorem toList_mainSource (is : List Instruction) : (Instruction.mainSource is).toList =
    ".sub main\n".toList ++
      ((is.flatMap fun i => i.render.toList ++ ['\n']) ++ ".end\n".toList) := by
  rw [Instruction.mainSource, String.toList_append, String.toList_append, String.toList_join,
    List.flatMap_map, List.append_assoc]
  simp only [String.toList_append]
  rfl

/-- Compiling the text of instructions gives these instructions, and nothing is reported. -/
theorem compile_mainSource (is : List Instruction) (o : BuildOptions)
    (hwritable : ∀ i ∈ is, i.Writable (OpcodeTable.parrot.extend o.extraOpcodes))
    (hlabels : (Instruction.labelsOf is).Nodup) :
    ∃ c s, compile (Instruction.mainSource is) o = .ok c ∧ c.diagnostics = [] ∧
      c.unit.subroutines = [s] ∧ s.name = "main" ∧ s.statements = is.map .instruction := by
  obtain ⟨t, l₁, hsteps, ht, -, hrest₁, -⟩ :=
    Lexer.reads_directive (l := .ofString 0 (Instruction.mainSource is)) .sub (c := 's')
      (w := ['u', 'b']) rfl rfl (List.all_eq_true.1 rfl) (toList_mainSource is) (.cons rfl _)
  obtain ⟨name, l₂, hsteps₁, hname, hlexeme, hrest₂, -⟩ :=
    Lexer.reads_word (show IsWord "main" by decide)
      (show l₁.rest = [' '] ++ ("main".toList ++ '\n' :: _) from hrest₁) (by simp [isBlank])
      (.cons rfl _)
  obtain ⟨u, l₃, hsteps₂, hu, -, hrest₃, -⟩ := Lexer.reads_newline hrest₂
  -- The header opens a subroutine, and the lines of the instructions fill it.
  have hheader : (Parser.line .top).Yields _ (Builder.new o) _ _ _ :=
    Parser.item_sub (L := l₃.steps) ht hname (show u.kind.isNewline = true by rw [hu]; rfl)
  rw [hlexeme, ← hsteps₂, ← hsteps₁, ← hsteps] at hheader
  obtain ⟨b, hlines, hreported, s, hs, hmain, hstatements⟩ :=
    readBack_lines hwritable (Builder.holds_openSub o t.line) hlabels hrest₃
  obtain ⟨s', hrun, -, rfl⟩ :=
    Parser.linesFrom_more hheader hlines (Session.start (Instruction.mainSource is) o)
      rfl rfl
  rw [compile_eq, hrun]
  exact ⟨_, s, rfl, hreported, hs, hmain, hstatements⟩

theorem compile_mainSource_keyed :
    ∃ c s, compile (".sub main\nif: set $P0[1;\"a\\tb\"], -5\nnoop\n" ++
        "exists $I0, $P1, [$S2]\nnext: branch if\n.end\n") .standard = .ok c ∧
      c.diagnostics = [] ∧ c.unit.subroutines = [s] ∧ s.name = "main" ∧
      s.statements = [
        .instruction ⟨some "if", "set",
          [.target { Target.register .pmc 0 with key := some ⟨.int 1, [.string "a\tb"]⟩ },
            .int (-5)]⟩,
        .instruction ⟨none, "noop", []⟩,
        .instruction ⟨none, "exists", [.target (.register .int 0), .target (.register .pmc 1),
          .key ⟨.target (.register .string 2), []⟩]⟩,
        .instruction ⟨some "next", "branch", [.label "if"]⟩] := by
  rw [show (".sub main\nif: set $P0[1;\"a\\tb\"], -5\nnoop\n" ++
      "exists $I0, $P1, [$S2]\nnext: branch if\n.end\n") = Instruction.mainSource [
        ⟨some "if", "set",
          [.target { Target.register .pmc 0 with key := some ⟨.int 1, [.string "a\tb"]⟩ },
            .int (-5)]⟩,
        ⟨none, "noop", []⟩,
        ⟨none, "exists", [.target (.register .int 0), .target (.register .pmc 1),
          .key ⟨.target (.register .string 2), []⟩]⟩,
        ⟨some "next", "branch", [.label "if"]⟩] by decide +kernel]
  refine compile_mainSource _ .standard ?_ (by decide +kernel)
  have hkeyed : ∀ e ∈ (Key.mk (.int 1) [.string "a\tb"]).entries, e.IsValue := by
    simp only [Key.entries, List.forall_mem_cons]
    exact ⟨.int 1, .string (List.all_eq_true.1 (by decide +kernel)), nofun⟩
  have hkey : ∀ e ∈ (Key.mk (.target (.register .string 2)) []).entries, e.IsValue :=
    List.forall_mem_singleton.mpr (.register nofun (by decide))
  simp only [List.forall_mem_cons]
  refine ⟨⟨rfl, by decide +kernel, rfl, ?_, nofun, by decide +kernel, rfl⟩,
    ⟨rfl, by decide +kernel, rfl, nofun, nofun, nofun, rfl⟩,
    ⟨rfl, by decide +kernel, rfl, ?_, nofun, nofun, rfl⟩,
    ⟨rfl, by decide +kernel, rfl, ?_, nofun, by decide +kernel, rfl⟩, nofun⟩
  · simp only [List.forall_mem_cons]
    exact ⟨.value (.keyed (by decide) hkeyed), .value (.int (-5)), nofun⟩
  · simp only [List.forall_mem_cons]
    exact ⟨.value (.register nofun (by decide)), .value (.register nofun (by decide)), .key hkey,
      nofun⟩
  · exact List.forall_mem_singleton.mpr (.label (by decide +kernel))

end PirFrontend
