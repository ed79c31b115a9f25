import Mathlib.Data.List.Forall2
import PirFrontend.Compile
import PirFrontend.Proofs.Twins

/-!
How compiling ends: with a unit and the problems that were tolerated, or with one problem more
than is tolerated.
-/
namespace PirFrontend

/-- Steps that are alike: tokens, or faults that are reported alike. -/
inductive StepLike (A : Likeness) : Step → Step → Prop
  | token {t u : Token} : A.Tokens t u → StepLike A (.ok t) (.ok u)
  | fault {f g : LexFault} : A.Errors (.ofFault f) (.ofFault g) → StepLike A (.error f) (.error g)

theorem textual_same (A : Likeness) :
    Textual A (List.Forall₂ (StepLike A)) fun _ _ => False where
  fault h := (List.forall₂_cons.1 h).2
  cases h := by
    refine .inl ?_
    induction h with
    | nil => exact .nil .nil
    | @cons step step' L M hstep h ih =>
      cases hstep with
      | fault hfg => exact .fault hfg ih
      | @token t u htu =>
        cases ht : t.kind.isNewline with
        | true => exact .newline htu ht h
        | false => exact .token htu ht ih

theorem StepLike.refl {A : Likeness} [A.Reflexive] : ∀ step : Step, StepLike A step step
  | .ok t => .token (.refl t)
  | .error _ => .fault ⟨rfl, .some (Likeness.Reflexive.line _)⟩

theorem Builder.new_idle (o : BuildOptions) : (new o).Idle := ⟨rfl, rfl, rfl, rfl⟩

theorem Builder.new_ongoing (o : BuildOptions) : (new o).Ongoing := ⟨rfl, rfl⟩

theorem Builder.new_twin (A : Likeness) [A.Reflexive] (o : BuildOptions) :
    (new o).Twin A o .top (new o) :=
  ⟨rfl, rfl, ⟨.empty, [], 1, rfl, Likeness.Reflexive.unit _, Likeness.Reflexive.told _,
    Likeness.Reflexive.line _⟩, new_ongoing o, new_ongoing o, new_idle o⟩

/-- Compiling gives what is left behind by reading lines from the outermost place on. -/
theorem compile_eq (source : String) (o : BuildOptions) : compile source o =
    match (Parser.linesFrom .top).run (Session.start source o) with
    | (.ok _, s) => .ok ⟨s.builder.finish.1, s.builder.finish.2,
        if o.verifyLabels then s.builder.finish.1.labelFaults else []⟩
    | (.error f, s) => .error ⟨f, s.builder.finish.2⟩ := by
  unfold compile Session.readProgram Parser.program
  generalize (Parser.linesFrom .top).run (Session.start source o) = r
  obtain ⟨f | a, s⟩ := r <;> rfl

/-- A text that compiles was read to its end. -/
theorem compile_ok {source : String} {o : BuildOptions} {c : Compiled}
    (h : compile source o = .ok c) :
    ∃ s, (Parser.linesFrom .top).run (Session.start source o) = (.ok (), s) ∧
      c = ⟨s.builder.finish.1, s.builder.finish.2,
        if o.verifyLabels then s.builder.finish.1.labelFaults else []⟩ := by
  rw [compile_eq] at h
  generalize (Parser.linesFrom .top).run (Session.start source o) = r at h ⊢
  obtain ⟨f | _, s⟩ := r
  · cases h
  · exact ⟨s, rfl, (Except.ok.inj h).symm⟩

/-- The numbers of instructions in the subroutines of a unit. -/
def CompilationUnit.sizes (u : CompilationUnit) : List Nat :=
  u.subroutines.map fun sub => sub.statements.length

/-- Whether a text compiles with the standard options to something that passes a test. -/
def compiles (source : String) (test : Compiled → Bool) : Bool :=
  match compile source .standard with
  | .ok c => test c
  | .error _ => false

theorem exists_of_compiles {source : String} {test : Compiled → Bool}
    (h : compiles source test = true) : ∃ c, compile source .standard = .ok c ∧ test c = true := by
  unfold compiles at h
  split at h
  next c hc => exact ⟨c, hc, h⟩
  next => cases h

/-- What is kept by the actions that change the code holds in the end if it does now. -/
theorem linesFrom_kept (inv : Parser.Place → Builder → Prop) [Builder.Kept inv]
    {p : Parser.Place} {s s' : Session} (hs : inv p s.builder)
    (h : (Parser.linesFrom p).run s = (.ok (), s')) : inv .top s'.builder := by
  have hout := Pairing.lines_outcome (P := .single inv (s.steps.length + 1)) (p := p) (s := s)
    (t := s) ⟨rfl, hs⟩ (.inl ⟨rfl, Nat.lt_succ_self _⟩)
  cases hout with
  | ended hrun _ hrel _ =>
    cases hrun.symm.trans h
    exact hrel.2
  | stopped hrun _ _ => cases hrun.symm.trans h
  | left hrun _ => cases hrun.symm.trans h
  | right hrun _ => cases hrun.symm.trans h
  | askew _ _ _ ha => exact ha.elim
  | crossed _ _ _ _ _ _ ha _ => exact ha.elim

/-- What holds when building begins, and is kept by what changes the code, holds in the end. -/
theorem compile_kept (inv : Parser.Place → Builder → Prop) [Builder.Kept inv] {source : String}
    {o : BuildOptions} {c : Compiled} (hstart : inv .top (.new o))
    (h : compile source o = .ok c) : ∃ b, inv .top b ∧ c = ⟨b.finish.1, b.finish.2,
      if o.verifyLabels then b.finish.1.labelFaults else []⟩ := by
  obtain ⟨s, hrun, hc⟩ := compile_ok h
  exact ⟨s.builder, linesFrom_kept inv hstart hrun, hc⟩

theorem Builder.finish_diagnostics (b : Builder) : b.finish.2 = b.diagnostics :=
  b.closeSub_same.diagnostics

/-- What was reported stays reported. -/
instance (ds : List Diagnostic) : Builder.Kept fun _ b => ds <+: b.diagnostics where
  same hs h := h.trans hs.diagnostics
  emit h _ := Build.emit_leaves _ fun _ _ => h
  beginBlock k h := by cases k <;> exact h
  leaveBlock h := h
  changeCall h _ _ := Build.changeCall_leaves _ fun _ _ => h
  endCall h := Build.endCall_leaves
    (fun a b hrun => h.trans (Build.report_sameContent _ _ a b hrun).diagnostics)
    fun _ _ => ⟨Build.emit_leaves _ fun _ _ => h,
      fun a b hrun => h.trans (Build.report_sameContent _ _ a b hrun).diagnostics⟩
  openSub {b} _ h := b.closeSub_same.diagnostics.symm ▸ h
  closeSub {b} h := b.closeSub_same.diagnostics.symm ▸ h
  addParameter _ _ _ h _ _ := h
  addLexical _ h _ _ := h
  setLabel _ h := h
  setNamespace _ h := h

/-- Reading on adds to what was reported. -/
theorem diagnostics_prefix {p : Parser.Place} {s s' : Session}
    (h : (Parser.linesFrom p).run s = (.ok (), s')) :
    s.builder.diagnostics <+: s'.builder.diagnostics :=
  linesFrom_kept (fun _ b => s.builder.diagnostics <+: b.diagnostics) List.prefix_rfl h

/-- A build that was given up for the problems in it. -/
theorem compile_of_exceeded {source : String} {o : BuildOptions} {f : Fatal} {s : Session}
    (hrun : (Parser.linesFrom .top).run (Session.start source o) = (.error f, s))
    (h : Builder.Exceeded o f s.builder) :
    ∃ ds, compile source o = .error ⟨.tooManyErrors ds.length, ds⟩ ∧
      ds.length = o.maxErrors + 1 := by
  refine ⟨s.builder.diagnostics, ?_, h.2⟩
  rw [compile_eq, hrun, h.1]
  simp only [Builder.finish_diagnostics]

/-- Reading a whole text succeeds in a builder that was not given up, or stops at one problem more
than is tolerated. -/
theorem linesFrom_outcome (source : String) (o : BuildOptions) :
    (∃ s, (Parser.linesFrom .top).run (Session.start source o) = (.ok (), s) ∧
      s.builder.diagnostics.length ≤ o.maxErrors) ∨
    ∃ f s, (Parser.linesFrom .top).run (Session.start source o) = (.error f, s) ∧
      Builder.Exceeded o f s.builder := by
  have := Pairing.twins_continuing (o := o) (textual_same .built)
  have hsteps : List.Forall₂ (StepLike .built) (Session.start source o).steps
      (Session.start source o).steps :=
    List.forall₂_same.2 fun step _ => .refl step
  have hout := Pairing.lines_outcome
    (P := .twins .built o (List.Forall₂ (StepLike .built)) fun _ _ => False)
    (p := .top) (s := .start source o) (t := .start source o) (Builder.new_twin .built o)
    (.inl hsteps)
  cases hout with
  | @ended s _ h _ hrel _ =>
    have htolerated := of_decide_eq_false hrel.left.tolerated
    rw [hrel.options] at htolerated
    exact .inl ⟨s, h, Nat.le_of_not_lt htolerated⟩
  | left h ha => exact .inr ⟨_, _, h, ha⟩
  | right h ha => exact .inr ⟨_, _, h, ha⟩
  | stopped _ _ h => exact h.elim
  | askew _ _ _ h => exact h.elim
  | crossed _ _ _ _ _ _ h _ => exact h.elim

/-- Compiling succeeds with no more problems than are tolerated, or gives up at the first one
beyond. It never fails otherwise. -/
theorem compile_outcome (source : String) (o : BuildOptions) :
    (∃ c, compile source o = .ok c ∧ c.diagnostics.length ≤ o.maxErrors) ∨
    ∃ ds, compile source o = .error ⟨.tooManyErrors ds.length, ds⟩ ∧
      ds.length = o.maxErrors + 1 := by
  obtain ⟨s, h, hle⟩ | ⟨f, s, h, ha⟩ := linesFrom_outcome source o
  · left
    refine ⟨_, by rw [compile_eq, h], ?_⟩
    rw [Builder.finish_diagnostics]
    exact hle
  · exact .inr (compile_of_exceeded h ha)

end PirFrontend
