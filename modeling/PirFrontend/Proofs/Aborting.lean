import PirFrontend.Proofs.Commands
import PirFrontend.Proofs.Limits

/-!
A build that was given up stays so. The problem that is one too many is the last one that is
entered, and no statement is added from then on. Every step keeps the flag in agreement with the
number of problems, so one can be told from the other in whatever builder a script leaves. Which
commands are refused is said by comparison:
a command that does anything else where more problems are tolerated is refused with the number of
problems, and any other does the same under every limit.
-/
namespace PirFrontend
namespace Builder

/-- The statements of all subroutines, the open one last. -/
def bodies (b : Builder) : List (List Statement) :=
  (b.unit.subroutines ++ b.current.toList).map (·.statements)

/-- However many problems are tolerated, the command has the same outcome, and neither reports a
problem nor adds a statement. -/
structure Indifferent (b : Builder) (command : Command) : Prop where
  outcome : ∀ n, (b.withLimit n).perform command =
    ((b.perform command).1, (b.perform command).2.withLimit n)
  diagnostics : ∀ n, ((b.withLimit n).perform command).2.diagnostics = b.diagnostics
  statements : ∀ n, ((b.withLimit n).perform command).2.bodies.flatten = b.bodies.flatten

/-! The problems and the flag -/

/-- At most one problem more was entered than is tolerated, and building was given up if that one
was, but not before. -/
structure Tallied (b : Builder) : Prop where
  bounded : b.diagnostics.length ≤ b.options.maxErrors + 1
  aborted_iff : b.aborted = true ↔ b.diagnostics.length = b.options.maxErrors + 1

variable {supplied : String → Prop} {b c d : Builder}

theorem tallied_new (options : BuildOptions) : (new options).Tallied where
  bounded := Nat.zero_le _
  aborted_iff := by
    show false = true ↔ 0 = options.maxErrors + 1
    simp

theorem Tallied.of_same (h : b.Tallied) (hsame : b.SameProblems c) : c.Tallied := by
  refine ⟨?_, ?_⟩
  · rw [hsame.diagnostics, hsame.options]
    exact h.bounded
  · rw [hsame.aborted, hsame.diagnostics, hsame.options]
    exact h.aborted_iff

theorem Tallied.tolerated (h : b.Tallied) (hb : b.aborted = false) :
    b.diagnostics.length ≤ b.options.maxErrors := by
  have hbound := h.bounded
  have hnot : b.diagnostics.length ≠ b.options.maxErrors + 1 := by
    intro hfull
    rw [h.aborted_iff.2 hfull] at hb
    cases hb
  omega

/-- The flag is set by the very report that makes the number one too large. -/
theorem Tallied.entered (h : b.Tallied) (hb : b.aborted = false) (kind : DiagnosticKind)
    (message : String) : (b.entered kind message).Tallied := by
  -- The problem is entered before it is asked how many there are.
  have hfew := h.tolerated hb
  have hlength : (b.entered kind message).diagnostics.length = b.diagnostics.length + 1 :=
    List.length_append
  have hflag : (b.entered kind message).aborted = true ↔
      b.options.maxErrors < (b.entered kind message).diagnostics.length := decide_eq_true_iff
  have hlimit : (b.entered kind message).options.maxErrors = b.options.maxErrors := rfl
  refine ⟨?_, hflag.trans ?_⟩ <;> omega

/-! What one step does to the problems and to the statements -/

/-- Building that was given up stays so and enters no problem more, and the flag goes on to agree
with the number of problems. -/
structure Abides (b c : Builder) : Prop where
  options : c.options = b.options
  aborted : b.aborted = true → c.aborted = true
  frozen : b.aborted = true → c.diagnostics = b.diagnostics
  tallied : b.Tallied → c.Tallied

theorem SameProblems.abides (h : b.SameProblems c) : b.Abides c where
  options := h.options
  aborted := h.aborted.trans
  frozen _ := h.diagnostics
  tallied hb := hb.of_same h

theorem Abides.trans (h : b.Abides c) (h' : c.Abides d) : b.Abides d where
  options := h'.options.trans h.options
  aborted hb := h'.aborted (h.aborted hb)
  frozen hb := (h'.frozen (h.aborted hb)).trans (h.frozen hb)
  tallied hb := h'.tallied (h.tallied hb)

/-- A problem is entered only where building was not given up. -/
theorem abides_entered (hb : b.aborted = false) (kind : DiagnosticKind) (message : String) :
    b.Abides (b.entered kind message) where
  options := rfl
  aborted ha := absurd (hb.symm.trans ha) Bool.false_ne_true
  frozen ha := absurd (hb.symm.trans ha) Bool.false_ne_true
  tallied ht := ht.entered hb kind message

theorem Move.abides (h : b.Move supplied c) : b.Abides c := by
  cases h with
  | report kind message hb => exact abides_entered hb kind message
  | label | spend | instruction | call | declare | unit =>
    exact SameProblems.abides ⟨rfl, rfl, rfl⟩

theorem Moves.abides (h : b.Moves supplied c) : b.Abides c := by
  induction h with
  | refl => exact SameProblems.abides ⟨rfl, rfl, rfl⟩
  | tail _ hmove ih => exact ih.trans hmove.abides

theorem Stays.abides {r : Except Fatal Reply × Builder} (h : b.Stays supplied r) :
    b.Abides r.2 := by
  cases h with
  | moves _ hmoves => exact hmoves.abides
  | emits _ hmoves hemits =>
    cases hemits with
    | emit => exact hmoves.abides.trans (SameProblems.abides ⟨rfl, rfl, rfl⟩)
  | line _ hmoves => exact hmoves.abides.trans (SameProblems.abides ⟨rfl, rfl, rfl⟩)

theorem Step.abides {r : Except Fatal Reply × Builder} (h : b.Step supplied r) :
    b.Abides r.2 := by
  cases h with
  | stays h => exact h.abides
  | opens => exact b.closeSub_same.abides.trans (SameProblems.abides ⟨rfl, rfl, rfl⟩)
  | closes => exact b.closeSub_same.abides

theorem Move.bodies (h : b.Move supplied c) : c.bodies = b.bodies := by
  cases h with
  | label name hs =>
    unfold Builder.bodies
    rw [hs]
    simp
  | declare hs hgains =>
    unfold Builder.bodies
    rw [hs]
    simp [hgains.statements]
  | unit u hgains =>
    unfold Builder.bodies
    rw [hgains.subroutines]
  | _ => rfl

theorem Moves.bodies (h : b.Moves supplied c) : c.bodies = b.bodies := by
  induction h with
  | refl => rfl
  | tail _ hmove ih => exact hmove.bodies.trans ih

theorem bodies_closeSub (b : Builder) : b.closeSub.2.bodies = b.bodies :=
  congrArg (List.map Subroutine.statements) b.subs_closeSub

/-- A new subroutine is empty. -/
theorem bodies_openSub (b : Builder) (name : String) :
    (b.openSub name).2.bodies = b.bodies ++ [[]] := by
  have hsubs := congrArg (List.map Subroutine.statements) (b.subs_openSub name)
  rw [List.map_append] at hsubs
  exact hsubs

theorem Stays.bodies_of_aborted {r : Except Fatal Reply × Builder} (h : b.Stays supplied r)
    (hb : b.aborted = true) : r.2.bodies = b.bodies := by
  cases h with
  | moves _ hmoves => exact hmoves.bodies
  | emits _ hmoves hemits =>
    cases hemits with
    | emit st hgoes =>
      rw [hmoves.abides.aborted hb] at hgoes
      cases hgoes
  | line _ hmoves => exact hmoves.bodies

/-- What fails adds no statement. -/
theorem Step.bodies_of_error {r : Except Fatal Reply × Builder} {f : Fatal}
    (h : b.Step supplied r) (hf : r.1 = .error f) : r.2.bodies = b.bodies := by
  cases h with
  | stays h =>
    cases h with
    | moves _ hmoves => exact hmoves.bodies
    | emits | line => cases hf
  | opens | closes => cases hf

/-- A build that was given up gets no statement, but empty subroutines can still be opened. -/
theorem Step.bodies_of_aborted {r : Except Fatal Reply × Builder} (h : b.Step supplied r)
    (hb : b.aborted = true) : r.2.bodies = b.bodies ∨ r.2.bodies = b.bodies ++ [[]] := by
  cases h with
  | stays h => exact .inl (h.bodies_of_aborted hb)
  | opens _ name => exact .inr (b.bodies_openSub name)
  | closes => exact .inl (bodies_closeSub b)

/-! Scripts -/

theorem performAll_cons (b : Builder) (command : Command) (script : List Command) :
    b.performAll (command :: script) = (b.perform command).2.performAll script := rfl

theorem abides_performAll (b : Builder) (script : List Command) :
    b.Abides (b.performAll script) := by
  induction script generalizing b with
  | nil => exact SameProblems.abides ⟨rfl, rfl, rfl⟩
  | cons command script ih => exact (command.step_any b).abides.trans (ih _)

/-- Whatever was done to a new builder, the flag agrees with the number of problems. -/
theorem tallied_performAll (options : BuildOptions) (script : List Command) :
    ((new options).performAll script).Tallied :=
  (abides_performAll (new options) script).tallied (tallied_new options)

theorem bodies_performAll (hb : b.aborted = true) (script : List Command) :
    ∃ k, (b.performAll script).bodies = b.bodies ++ List.replicate k [] := by
  induction script generalizing b with
  | nil => exact ⟨0, (List.append_nil _).symm⟩
  | cons command script ih =>
    have hstep := command.step_any b
    obtain ⟨k, hk⟩ := ih (hstep.abides.aborted hb)
    rw [performAll_cons, hk]
    obtain hsame | hmore := hstep.bodies_of_aborted hb
    · exact ⟨k, by rw [hsame]⟩
    · exact ⟨k + 1, by rw [hmore, List.append_assoc, List.replicate_succ, List.singleton_append]⟩

/-- A command that is not refused neither reports nor emits, whatever the limit. -/
theorem refused_or_indifferent (hb : b.aborted = true) (command : Command) :
    (b.perform command).1 = .error (.tooManyErrors b.diagnostics.length) ∨
      b.Indifferent command := by
  by_cases hrefused : (b.perform command).1 = .error (.tooManyErrors b.diagnostics.length)
  · exact .inl hrefused
  have hsame (n : Nat) : (b.withLimit n).perform command =
      ((b.perform command).1, (b.perform command).2.withLimit n) := by
    have hends : Build.Ends b n (b.perform command) ((b.withLimit n).perform command) :=
      command.run_heeds b n hb
    revert hends hrefused
    generalize b.perform command = r
    generalize (b.withLimit n).perform command = r'
    intro hrefused hends
    cases hends with
    | refused => exact absurd rfl hrefused
    | same => rfl
  have hstep := command.step_any b
  refine .inr ⟨hsame, ?_, ?_⟩
  · intro n
    rw [hsame]
    exact hstep.abides.frozen hb
  · intro n
    rw [hsame]
    show (b.perform command).2.bodies.flatten = _
    obtain hbodies | hbodies := hstep.bodies_of_aborted hb
    · rw [hbodies]
    · rw [hbodies, List.flatten_append]
      exact List.append_nil _

end Builder

/-- At most one problem more is entered than is tolerated, and the build is given up when that one
is. From then on no problem is entered and no statement is added, and a command that reports or
emits is refused with the number of problems. A command that fails, then or before, adds no
statement. -/
theorem performAll_aborts (options : BuildOptions) (script : List Command) :
    let b := (Builder.new options).performAll script
    b.diagnostics.length ≤ options.maxErrors + 1 ∧
    (b.aborted = true ↔ b.diagnostics.length = options.maxErrors + 1) ∧
    (b.aborted = true → ∀ later, let c := b.performAll later
      c.aborted = true ∧ c.diagnostics = b.diagnostics ∧
      (∃ k, c.bodies = b.bodies ++ List.replicate k []) ∧
      ∀ command, (c.perform command).1 = .error (.tooManyErrors b.diagnostics.length) ∨
        c.Indifferent command) ∧
    ∀ command f, (b.perform command).1 = .error f → (b.perform command).2.bodies = b.bodies := by
  intro b
  have htallied : b.Tallied := Builder.tallied_performAll options script
  have hlimit : b.options.maxErrors = options.maxErrors := by
    rw [(Builder.abides_performAll (.new options) script).options]
    rfl
  refine ⟨hlimit ▸ htallied.bounded, hlimit ▸ htallied.aborted_iff, ?_, ?_⟩
  · intro hb later c
    have hlater : b.Abides c := Builder.abides_performAll b later
    have hc : c.aborted = true := hlater.aborted hb
    refine ⟨hc, hlater.frozen hb, Builder.bodies_performAll hb later, ?_⟩
    intro command
    rw [← hlater.frozen hb]
    exact Builder.refused_or_indifferent hc command
  · intro command f hf
    exact (command.step_any b).bodies_of_error hf

/-- Where no problem is tolerated, a second name for one constant ends the build, and a branch is
refused. -/
theorem performAll_aborts_duplicate :
    let b := (Builder.new ⟨0, [], true⟩).performAll
      [.openSub "main", .declareConstant "n" (.int 1), .declareConstant "n" (.int 2)]
    b.aborted = true ∧ (b.perform (.gotoLabel "first")).1 = .error (.tooManyErrors 1) ∧
      ¬ b.Indifferent (.gotoLabel "first") := by
  intro b
  have hb : b.aborted = true := rfl
  have hnot : ¬ b.Indifferent (.gotoLabel "first") := by
    intro h
    have hstatements := h.statements 1
    cases hstatements
  have hall := (performAll_aborts ⟨0, [], true⟩ [.openSub "main", .declareConstant "n" (.int 1),
    .declareConstant "n" (.int 2)]).2.2.1 hb []
  exact ⟨hb, (hall.2.2.2 (.gotoLabel "first")).resolve_right hnot, hnot⟩

end PirFrontend
