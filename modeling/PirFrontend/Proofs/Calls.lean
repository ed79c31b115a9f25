import PirFrontend.Proofs.Values

/-!
Two runs of the rules for calls: methods, arguments, what is called, and the targets of results.
-/
namespace PirFrontend

open PirFrontend.Parser (Place Block)

/-- A call on an object: a method of it if a dot is behind it, else the object itself. -/
def Parser.objectCall : Parser Invocation := do
  let object ← pmcObject
  if ← eatOperator .dot then
    let invocant ← Build.invocantTarget object
    let m ← method
    return .methodCall invocant m (← arguments)
  else
    let callee ← Build.pmcObject object
    return .subCall (.target callee) (← arguments)

namespace Pairing

variable {P : Pairing} [P.Readable] {cr : Prop} {p : Place} {s t : Session} {ks : List TokenKind}

theorem method_reads (h : P.Mid p ks s t) :
    P.Reads cr p Parser.method Parser.method s t (fun _ => [])
      fun a s' _ => s'.builder.MadeMethod a := by
  apply (peekKind_zero h).then
  rintro (_ | k) s₁ t₁ - - - hm -
  · exact unexpected_runs hm _ _
  cases k with
  | identifier | keyword =>
    apply (advanceText_reads hm rfl).then
    intro name s₂ t₂ _ _ _ hm _
    exact (reads_build hm (methodTarget_answers hm.rel name)).imp fun a s' t' _ hm ha =>
      ⟨hm.weaken, ha⟩
  | register cls number =>
    -- A register names a method only if it may hold an object or a string.
    have htarget (hcls : cls = .pmc ∨ cls = .string) :
        P.Reads cr p (do return .target (← Parser.target)) (do return .target (← Parser.target))
          s₁ t₁ (fun _ => []) fun a s' _ => s'.builder.MadeMethod a := by
      apply (target_reads hm).then
      intro a s₂ t₂ _ _ _ hm ⟨ha, hreg⟩
      refine .pure hm.weaken (.target ha ?_)
      rw [hreg cls number rfl]
      exact hcls.elim (fun h => .inl (h ▸ rfl)) fun h => .inr (.inl (h ▸ rfl))
    cases cls with
    | pmc => exact htarget (.inl rfl)
    | string => exact htarget (.inr rfl)
    | _ => exact unexpected_runs hm _ _
  | string x =>
    apply (expectString_reads hm).then
    intro x s₂ t₂ _ _ _ hm _
    exact .pure hm.weaken (.string x)
  | _ => exact unexpected_runs hm _ _

/-- A flag behind an argument leaves its value alone. -/
theorem nextArgumentFlag_reads (h : P.Mid p [] s t) (a : Argument) :
    P.Reads cr p (Parser.nextArgumentFlag a) (Parser.nextArgumentFlag a) s t (fun _ => [])
      fun r s' t' => r.1.value = a.value ∧ (r.2 = true → Shorter s t s' t') := by
  apply (peekKind_zero h).then
  rintro (_ | k) s₁ t₁ hs₁ ht₁ - hm -
  · exact .pure hm.weaken ⟨rfl, by simp⟩
  cases k with
  | flag word =>
    cases word with
    | flat =>
      apply (advance_runs hm rfl).bind
      intro u v s₂ t₂ _ _ htake
      exact Runs.pure ⟨rfl, .of_eq htake.still.1, htake.mid.weaken, rfl,
        fun _ => htake.shorter.mono hs₁ ht₁⟩
    | named =>
      apply (advance_runs hm rfl).bind
      intro u v s₂ t₂ _ _ htake
      refine Runs.within htake.still.1 ((optionalParenString_reads htake.mid).then ?_)
      intro name s₃ t₃ hs₃ ht₃ _ hm _
      exact .pure hm ⟨rfl, fun _ => (htake.shorter.mono hs₁ ht₁).follows hs₃ ht₃⟩
    | _ => exact unexpected_runs hm _ _
  | _ => exact .pure hm.weaken ⟨rfl, by simp⟩

theorem argumentFlags_reads (h : P.Mid p ks s t) {a : Argument} (ha : s.builder.Made a.value) :
    P.Reads cr p (Parser.argumentFlags a) (Parser.argumentFlags a) s t (fun _ => [])
      fun a s' _ => s'.builder.Made a.value := by
  refine Reads.iterate (T := fun b (a : Argument) => b.Made a.value) ?_ h.weaken ha
  intro a s t hm ha
  apply (nextArgumentFlag_reads hm a).imp
  rintro ⟨a', go⟩ s' t' hw hm ⟨hvalue, hshort⟩
  exact ⟨hm, hvalue ▸ ha.within hw, hshort⟩

theorem argument_reads (h : P.Mid p [] s t) :
    P.Reads cr p Parser.argument Parser.argument s t (fun _ => [])
      fun a s' _ => s'.builder.Made a.value := by
  -- What is done unless a name and an arrow are in front.
  have hplain (ks s t) (h : P.Mid p ks s t) : P.Reads cr p
      (do Parser.argumentFlags (.positional (← Parser.value)))
      (do Parser.argumentFlags (.positional (← Parser.value))) s t
      (fun _ => []) fun a s' _ => s'.builder.Made a.value :=
    (value_reads h).then fun e s' t' _ _ _ hm he => argumentFlags_reads hm he
  apply (peekKind_zero h).then
  rintro (_ | k) s₁ t₁ - - - hm -
  · exact hplain _ _ _ hm
  cases k with
  | string name =>
    have hm : P.Mid p [.string name] s₁ t₁ := hm
    refine (atOperator_next hm ?_ (by simp [maxLookahead]) .fatArrow).then ?_
    · simp [TokenKind.isNewline]
    rintro (_ | _) s₂ t₂ - - - hm -
    · exact hplain _ _ _ hm
    · have hm : P.Mid p [.string name, .operator .fatArrow] s₂ t₂ := hm
      apply (advance_runs hm rfl).bind
      intro u v s₃ t₃ _ _ htake
      apply Runs.within htake.still.1
      apply (advance_runs htake.mid rfl).bind
      intro u' v' s₄ t₄ _ _ htake'
      refine Runs.within htake'.still.1 ((value_reads htake'.mid).then ?_)
      intro e s₅ t₅ _ _ _ hm he
      exact .pure hm he
  | _ => exact hplain _ _ _ hm

theorem arguments_reads (h : P.Mid p ks s t) :
    P.Reads cr p Parser.arguments Parser.arguments s t (fun _ => [])
      fun as s' _ => s'.builder.MadeArguments as :=
  parenthesized_reads (T := fun b (a : Argument) => b.Made a.value)
    (fun _ _ _ hw ha => ha.within hw) (fun _ _ h => argument_reads h) h

theorem objectCall_reads (h : P.Mid p ks s t) :
    P.Reads cr p Parser.objectCall Parser.objectCall s t (fun _ => [])
      fun i s' _ => s'.builder.MadeCall i := by
  unfold Parser.objectCall
  apply (pmcObject_reads h).then
  intro object s₁ t₁ _ _ _ hm _
  apply (eatOperator_reads hm .dot).then
  rintro (_ | _) s₂ t₂ - - - hm -
  · apply (reads_build hm (pmcObject_answers hm.rel object)).then
    intro callee s₃ t₃ _ _ _ hm hc
    apply (arguments_reads hm).then
    intro as s₄ t₄ _ _ hw hm has
    exact .pure hm (.sub (hc.within hw) has)
  · apply (reads_build hm (invocantTarget_answers hm.rel object)).then
    intro invocant s₃ t₃ _ _ _ hm hi
    apply (method_reads hm).then
    intro m s₄ t₄ _ _ hw hm hmeth
    apply (arguments_reads hm).then
    intro as s₅ t₅ _ _ hw' hm has
    exact .pure hm (.method (hi.within (hw.trans hw')) (hmeth.within hw') has)

/-- A call on one line. -/
theorem invocation_reads (h : P.Mid p ks s t) :
    P.Reads cr p Parser.invocation Parser.invocation s t (fun _ => [])
      fun i s' _ => s'.builder.MadeCall i := by
  apply (peekKind_zero h).then
  rintro (_ | k) s₁ t₁ - - - hm -
  · exact unexpected_runs hm _ _
  cases k with
  | string name =>
    apply (advance_runs hm rfl).bind
    intro u v s₂ t₂ _ _ htake
    refine Runs.within htake.still.1 ((arguments_reads htake.mid).then ?_)
    intro as s₃ t₃ _ _ _ hm has
    exact .pure hm (.sub (.constant _) has)
  | _ => exact objectCall_reads hm

theorem invocantType_reads (h : P.Mid p ks s t) :
    P.Reads cr p Parser.invocantType Parser.invocantType s t (fun _ => []) fun _ _ _ => True := by
  apply (expectOperator_reads h .leftParen).then
  intro _ s₁ t₁ _ _ _ hm _
  have hclose (type : String) (s t) (h : P.Mid p [] s t) : P.Reads cr p
      (do Parser.expectOperator .rightParen; pure type)
      (do Parser.expectOperator .rightParen; pure type) s t (fun _ => []) fun _ _ _ => True :=
    (expectOperator_reads h .rightParen).then fun _ s' t' _ _ _ hm _ => .pure hm trivial
  apply (peekKind_zero hm).then
  rintro (_ | k) s₂ t₂ - - - hm -
  · exact (expectName_reads hm _).then fun type s₃ t₃ _ _ _ hm _ => hclose type _ _ hm.weaken
  cases k with
  | string x =>
    exact (expectString_reads hm).then fun type s₃ t₃ _ _ _ hm _ => hclose type _ _ hm.weaken
  | _ => exact (expectName_reads hm _).then fun type s₃ t₃ _ _ _ hm _ => hclose type _ _ hm.weaken

theorem nextTargetMark_reads (h : P.Mid p [] s t) (allowInvocant : Bool)
    (marks : Parser.TargetMarks) :
    P.Reads cr p (Parser.nextTargetMark allowInvocant marks)
      (Parser.nextTargetMark allowInvocant marks) s t (fun _ => [])
      fun r s' t' => True ∧ (r.2 = true → Shorter s t s' t') := by
  apply (peekKind_zero h).then
  rintro (_ | k) s₁ t₁ hs₁ ht₁ - hm -
  · exact .pure hm.weaken ⟨trivial, by simp⟩
  cases k with
  | flag word =>
    dsimp only
    split
    next => exact unexpected_runs hm _ _
    next f _ =>
      apply (advance_runs hm rfl).bind
      intro u v s₂ t₂ _ _ htake
      have hshort := htake.shorter.mono hs₁ ht₁
      apply Runs.within htake.still.1
      -- Most marks are a single token.
      have hplain (marks : Parser.TargetMarks) :
          P.Reads cr p (pure (marks, true)) (pure (marks, true)) s₂ t₂ (fun _ => [])
            fun r s' t' => True ∧ (r.2 = true → Shorter s t s' t') :=
        .pure htake.mid.weaken ⟨trivial, fun _ => hshort⟩
      cases f with
      | named =>
        apply (optionalParenString_reads htake.mid).then
        intro name s₃ t₃ hs₃ ht₃ _ hm _
        exact .pure hm ⟨trivial, fun _ => hshort.follows hs₃ ht₃⟩
      | invocant =>
        apply (invocantType_reads htake.mid).then
        intro type s₃ t₃ hs₃ ht₃ _ hm _
        exact .pure hm ⟨trivial, fun _ => hshort.follows hs₃ ht₃⟩
      | _ => exact hplain _
  | _ => exact .pure hm.weaken ⟨trivial, by simp⟩

theorem targetMarks_reads (h : P.Mid p ks s t) (allowInvocant : Bool) :
    P.Reads cr p (Parser.targetMarks allowInvocant) (Parser.targetMarks allowInvocant) s t
      (fun _ => []) fun _ _ _ => True :=
  Reads.iterate (T := fun _ _ => True)
    (fun marks _ _ hm _ => nextTargetMark_reads hm allowInvocant marks) h.weaken trivial

theorem resultTarget_reads (h : P.Mid p ks s t) :
    P.Reads cr p Parser.resultTarget Parser.resultTarget s t (fun _ => [])
      fun a s' _ => s'.builder.Made (.target a) := by
  apply (target_reads h).then
  intro a s₁ t₁ _ _ _ hm ⟨ha, _⟩
  apply (targetMarks_reads hm false).then
  intro marks s₂ t₂ _ _ hw hm _
  exact .pure hm (.marked _ _ (ha.within hw))

theorem resultTargets_reads (h : P.Mid p ks s t) :
    P.Reads cr p Parser.resultTargets Parser.resultTargets s t (fun _ => [])
      fun as s' _ => s'.builder.MadeTargets as :=
  parenthesized_reads (T := fun b a => b.Made (.target a)) (fun _ _ _ hw ha => ha.within hw)
    (fun _ _ h => resultTarget_reads h) h

end Pairing
end PirFrontend
