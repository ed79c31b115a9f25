import PirFrontend.Proofs.RenamedValues

/-!
Calls, declarations and blocks under other names.
-/
namespace PirFrontend
namespace Respelling

variable {ρ : Respelling} {α : Type} {K : List TokenKind → Prop}

/-- A token that was looked at is taken and forgotten. -/
theorem skipped {f g : Parser α} {R : α → α → Prop} {Q : α → Session → Session → Prop}
    (hK : ∀ k L, K (k :: L) → k.declares = false)
    (h : Carries (ρ.At false Anything) f g R Q) :
    Carries (ρ.At false K) (do let _ ← Parser.advance; f) (do let _ ← Parser.advance; g) R Q :=
  (advance_known fun k L hL => ⟨hK k L hL, trivial⟩).bindRel fun _ _ _ => h

theorem declares_ahead {k₀ : TokenKind} (h₀ : k₀.declares = false) (k : TokenKind)
    (L : List TokenKind) (h : K (k :: L) ∧ (k :: L)[0]? = some k₀) : k.declares = false :=
  (known_ahead h₀ k L h).1

theorem declares_directive {d : Directive} {b : Bool} (hK : ∀ k L, K (k :: L) → k = .directive d)
    (h : (TokenKind.directive d).declares = b) (k : TokenKind) (L : List TokenKind)
    (hL : K (k :: L)) : k.declares = b :=
  hK k L hL ▸ h

/-! Arguments -/

theorem method_reads : ρ.Reads K Parser.method Parser.method (Expression.rename ρ.name) := by
  refine peekKind_bind (by decide) (fun _ _ => rfl) fun k => ?_
  obtain _ | k := k
  · exact unexpected _
  cases k with
  | identifier | keyword =>
    exact (advanceText (word_ahead rfl)).bind fun name => build (methodTarget name)
  | register cls number =>
    cases cls with
    | pmc | string => exact targetOperand_reads
    | _ => exact unexpected _
  | string s =>
    exact expectString_reads.bind fun s => .pure (Expression.rename_string s).symm fun _ _ => id
  | _ => exact unexpected _

theorem nextArgumentFlag_reads {a b : Argument} (hab : Maps (Argument.rename ρ.name) a b) :
    Carries (ρ.At false K) (Parser.nextArgumentFlag a) (Parser.nextArgumentFlag b)
      (fun p q => Maps (Argument.rename ρ.name) p.1 q.1 ∧ q.2 = p.2)
      fun _ => ρ.At false Anything := by
  subst hab
  refine peekKind_bind (by decide) (fun _ _ => rfl) fun k => ?_
  obtain _ | k := k
  · exact .pure ⟨rfl, rfl⟩ fun _ _ h => h.weaken
  cases k with
  | flag word =>
    cases word with
    | flat => exact skipped (declares_ahead rfl) (.pure ⟨rfl, rfl⟩ fun _ _ => id)
    | named =>
      exact skipped (declares_ahead rfl)
        (optionalParenString_reads.bind fun namedAs => .pure ⟨rfl, rfl⟩ fun _ _ => id)
    | _ => exact unexpected _
  | _ => exact .pure ⟨rfl, rfl⟩ fun _ _ h => h.weaken

theorem argumentFlags_reads (a : Argument) :
    ρ.Reads Anything (Parser.argumentFlags a) (Parser.argumentFlags (a.rename ρ.name))
      (Argument.rename ρ.name) := by
  refine .iterate Parser.nextArgumentFlag_progresses Parser.nextArgumentFlag_progresses
    (fun a b hab => ?_) rfl
  exact (nextArgumentFlag_reads hab).after fun p _ _ h => by split <;> exact h

theorem argument_reads :
    ρ.Reads K Parser.argument Parser.argument (Argument.rename ρ.name) := by
  have hpositional {K : List TokenKind → Prop} :
      ρ.Reads K (do Parser.argumentFlags (.positional (← Parser.value)))
        (do Parser.argumentFlags (.positional (← Parser.value))) (Argument.rename ρ.name) :=
    value_reads.bind fun e => argumentFlags_reads (.positional e)
  refine peekKind_bind (by decide) (fun _ _ => rfl) fun k => ?_
  obtain _ | k := k
  · exact hpositional
  cases k with
  | string name =>
    refine (atOperator_known (by decide) .fatArrow).bind fun b => ?_
    cases b with
    | false => exact hpositional
    | true =>
      -- The arrow behind the name is taken with it.
      have hfirst : ∀ k L, ((K (k :: L) ∧ (k :: L)[0]? = some (.string name)) ∧
          (k :: L)[1]?.any (·.isOperator .fatArrow) = true) →
          k.declares = false ∧ L[0]?.any (·.isOperator .fatArrow) = true := by
        rintro k L ⟨⟨-, hk⟩, harrow⟩
        cases hk
        exact ⟨rfl, harrow⟩
      refine (advance_known (J := fun L => L[0]?.any (·.isOperator .fatArrow) = true)
        hfirst).bindRel fun _ _ _ => skipped ?_ ?_
      · intro k L hk
        cases k <;> first | rfl | cases hk
      · exact value_reads.bind fun e => .pure rfl fun _ _ => id
  | _ => exact hpositional

theorem arguments_reads :
    ρ.Reads K Parser.arguments Parser.arguments (List.map (Argument.rename ρ.name)) :=
  parenthesized_reads Parser.argument_shrinks argument_reads

theorem objectCall_reads :
    ρ.Reads K Parser.objectCall Parser.objectCall (Invocation.rename ρ.name) := by
  refine pmcObject_reads.bind fun object => (eatOperator_reads .dot).bind fun b => ?_
  cases b with
  | true =>
    exact (build (invocantTarget object)).bind fun invocant => method_reads.bind fun m =>
      arguments_reads.bind fun as => .pure (by
        simp [Maps, Invocation.methodCall, Invocation.empty, Invocation.rename]) fun _ _ => id
  | false =>
    exact (build (pmcObject object)).bind fun callee => arguments_reads.bind fun as =>
      .pure (by simp [Maps, Invocation.subCall, Invocation.empty, Invocation.rename])
        fun _ _ => id

theorem invocation_reads :
    ρ.Reads K Parser.invocation Parser.invocation (Invocation.rename ρ.name) := by
  refine peekKind_bind (by decide) (fun _ _ => rfl) fun k => ?_
  obtain _ | k := k
  · exact unexpected _
  cases k with
  | string name =>
    exact skipped (declares_ahead rfl) (arguments_reads.bind fun as => .pure (by
      simp [Maps, Invocation.subCall, Invocation.empty, Invocation.rename]) fun _ _ => id)
  | _ => exact objectCall_reads

/-! Marks of parameters and results -/

/-- The same flags, with an invocant type that is the same unless it is hidden. -/
structure Marks (ρ : Respelling) (m n : Parser.TargetMarks) : Prop where
  flags : n.flags = m.flags
  namedAs : n.namedAs = m.namedAs
  invocant : Spared (some ρ.hidden) m.invocant n.invocant

instance : Total ρ.Marks := ⟨fun m => ⟨m, rfl, rfl, .refl _ _⟩⟩

/-- A name that is taken for a text of its own. -/
theorem expectName_spared (role : String) :
    Carries (ρ.At false K) (Parser.expectName role) (Parser.expectName role) (Spared ρ.hidden)
      fun _ => ρ.At false Anything := by
  refine (atName_known (by decide)).bind fun b => ?_
  cases b with
  | false => exact unexpected _
  | true => exact advanceWord fun k L hK => ⟨isWord_of_isName (by simpa using hK.2), trivial⟩

theorem invocantType_reads :
    Carries (ρ.At false K) Parser.invocantType Parser.invocantType (Spared ρ.hidden)
      fun _ => ρ.At false Anything := by
  have hclosed {a b : String} (hab : Spared ρ.hidden a b) : Carries (ρ.At false Anything)
      (do Parser.expectOperator .rightParen; pure a) (do Parser.expectOperator .rightParen; pure b)
      (Spared ρ.hidden) fun _ => ρ.At false Anything :=
    (expectOperator_reads .rightParen).bind fun _ => .pure hab fun _ _ => id
  refine (expectOperator_reads .leftParen).bind fun _ =>
    peekKind_bind (by decide) (fun _ _ => rfl) fun k => ?_
  split
  · exact expectString_reads.bind fun a => hclosed (.refl _ a)
  · exact (expectName_spared _).bindRel fun a b => hclosed

theorem nextTargetMark_reads (allowInvocant : Bool) {m n : Parser.TargetMarks}
    (hmn : ρ.Marks m n) :
    Carries (ρ.At false K) (Parser.nextTargetMark allowInvocant m)
      (Parser.nextTargetMark allowInvocant n) (fun p q => ρ.Marks p.1 q.1 ∧ q.2 = p.2)
      fun _ => ρ.At false Anything := by
  refine peekKind_bind (by decide) (fun _ _ => rfl) fun k => ?_
  obtain _ | k := k
  · exact .pure ⟨hmn, rfl⟩ fun _ _ h => h.weaken
  cases k with
  | flag word =>
    dsimp only
    cases Parser.targetFlag? allowInvocant word with
    | none => exact unexpected _
    | some f =>
      have hflags : ρ.Marks { m with flags := m.flags.insert f }
          { n with flags := n.flags.insert f } :=
        ⟨by rw [hmn.flags], hmn.namedAs, hmn.invocant⟩
      refine skipped (declares_ahead rfl) ?_
      cases f with
      | named =>
        exact optionalParenString_reads.bind fun namedAs =>
          .pure ⟨{ hflags with namedAs := rfl }, rfl⟩ fun _ _ => id
      | invocant =>
        exact invocantType_reads.bindRel fun a b hab =>
          .pure ⟨{ hflags with invocant := Spared.some hab }, rfl⟩ fun _ _ => id
      | _ => exact .pure ⟨hflags, rfl⟩ fun _ _ => id
  | _ => exact .pure ⟨hmn, rfl⟩ fun _ _ h => h.weaken

theorem targetMarks_reads (allowInvocant : Bool) :
    Carries (ρ.At false K) (Parser.targetMarks allowInvocant) (Parser.targetMarks allowInvocant)
      ρ.Marks fun _ => ρ.At false Anything := by
  have hprogresses := Parser.nextTargetMark_progresses allowInvocant
  refine Carries.before (.iterate hprogresses hprogresses (fun m n hmn => ?_)
    ⟨rfl, rfl, .refl _ _⟩) fun _ _ h => h.weaken
  exact (nextTargetMark_reads allowInvocant hmn).after fun p _ _ h => by split <;> exact h

theorem resultTarget_reads :
    ρ.Reads K Parser.resultTarget Parser.resultTarget (Target.rename ρ.name) := by
  refine target_reads.bind fun t => (targetMarks_reads false).bindRel fun m n hmn =>
    .pure ?_ fun _ _ => id
  simp [Maps, Target.rename_eq, Target.addFlags, hmn.flags, hmn.namedAs]

theorem resultTargets_reads :
    ρ.Reads K Parser.resultTargets Parser.resultTargets (List.map (Target.rename ρ.name)) :=
  parenthesized_reads Parser.resultTarget_shrinks resultTarget_reads

/-! Declarations -/

/-- Behind the directive that declares, the type is the same. -/
theorem type_reads :
    Carries (ρ.At true Anything) Parser.type Parser.type (Maps id)
      fun _ => ρ.At false Anything := by
  refine peekKind_bindRel (by decide) fun k l hkl => ?_
  obtain rfl | ⟨rfl, -⟩ := hkl
  · obtain _ | k := l
    · exact unexpected _
    cases k with
    | keyword k =>
      dsimp only
      cases ValueType.ofKeyword? k with
      | none => exact unexpected _
      | some t =>
        exact (advance_known (known_ahead rfl)).bindRel fun _ _ _ => .pure rfl fun _ _ => id
    | _ => exact unexpected _
  -- An identifier is no type.
  · exact unexpected _

/-- A directive that declares, and the type behind it. -/
theorem declaredType {f g : ValueType → Parser α} {R : α → α → Prop}
    {Q : α → Session → Session → Prop} (hK : ∀ k L, K (k :: L) → k.declares = true)
    (h : ∀ t, Carries (ρ.At false Anything) (f t) (g t) R Q) :
    Carries (ρ.At false K) (do let _ ← Parser.advance; f (← Parser.type))
      (do let _ ← Parser.advance; g (← Parser.type)) R Q :=
  (advance_known fun k L hL => ⟨hK k L hL, trivial⟩).bindRel fun _ _ _ => type_reads.bind h

theorem constantDeclaration_reads (isGlobal : Bool)
    (hK : ∀ k L, K (k :: L) → k.declares = true) :
    ρ.Reads K (Parser.constantDeclaration isGlobal) (Parser.constantDeclaration isGlobal) id := by
  refine declaredType hK fun t => (expectName_reads _).bind fun name =>
    (expectOperator_reads .assign).bind fun _ => (atEndOfLine_reads (by decide)).bind fun b => ?_
  cases b with
  | true => exact unexpected _
  | false =>
    refine advance.bindRel fun u v huv => ?_
    have hvalue : Parser.constantValue? t v.kind = Parser.constantValue? t u.kind :=
      huv.congr (g := fun k => k.bind (Parser.constantValue? t)) fun _ _ => by
        cases t <;> rfl
    rw [hvalue]
    cases hv : Parser.constantValue? t u.kind with
    | none => exact .raised _ _
    | some v =>
      have hdeclares : u.kind.declares = false := by
        revert hv
        cases u.kind <;> cases t <;> first | exact fun _ => rfl | nofun
      rw [hdeclares]
      refine endOfLine_reads.bind fun _ => ?_
      cases isGlobal with
      | true => exact build (declareGlobalConstant name v)
      | false => exact build (declareConstant name v)

theorem parameter_reads (hK : ∀ k L, K (k :: L) → k.declares = true) :
    ρ.Reads K Parser.parameter Parser.parameter id :=
  declaredType hK fun t => (expectName_reads _).bind fun name =>
    (targetMarks_reads true).bindRel fun m n hmn => endOfLine_reads.bind fun _ => by
      rw [hmn.flags, hmn.namedAs]
      exact build (addParameter t name m.flags m.namedAs hmn.invocant)

theorem localName_reads :
    ρ.Reads K Parser.localName Parser.localName (Prod.map ρ.name id) := by
  refine (expectName_reads _).bind fun name => ?_
  have hflag := eaten (ρ := ρ) (K := Anything) (·.isFlag .uniqueReg) (fun _ _ => rfl) fun k hk => by
    cases k <;> first | rfl | cases hk
  have hassoc (name : String) : (do
        let flag ← TokenStream.consumeIf (·.kind.isFlag .uniqueReg)
        return (name, flag.isSome) : Parser (String × Bool)) =
      (do return (← TokenStream.consumeIf (·.kind.isFlag .uniqueReg)).isSome : Parser Bool) >>=
        fun b => pure (name, b) := by
    rw [bind_assoc]
    simp
  rw [hassoc, hassoc]
  exact hflag.bind fun b => .pure rfl fun _ _ => id

theorem localDeclaration_reads (hK : ∀ k L, K (k :: L) → k.declares = true) :
    ρ.Reads K Parser.localDeclaration Parser.localDeclaration id :=
  declaredType hK fun t =>
    (separated_reads .comma Parser.localName_shrinks localName_reads).bind fun names =>
      endOfLine_reads.bind fun _ => build (declareLocals t names)

theorem lexicalDeclaration_reads (hK : ∀ k L, K (k :: L) → k.declares = false) :
    ρ.Reads K Parser.lexicalDeclaration Parser.lexicalDeclaration id :=
  skipped hK <| expectString_reads.bind fun name => (expectOperator_reads .comma).bind fun _ =>
    pmcObject_reads.bind fun object => endOfLine_reads.bind fun _ =>
      build (declareLexical name object)

/-! Blocks -/

section

variable (hK : ∀ k L, K (k :: L) → k.declares = false)
include hK

theorem calledSub_reads : ρ.Reads K Parser.calledSub Parser.calledSub id := by
  refine skipped hK <| pmcObject_reads.bind fun object => (build (pmcObject object)).bind
    fun callee => (eatOperator_reads .comma).bind fun b => ?_
  cases b with
  | false =>
    exact endOfLine_reads.bind fun _ => build (callTarget callee none)
  | true =>
    have hretcont : ρ.Reads Anything
        (some <$> (do Build.pmcObject (← Parser.pmcObject) : Parser Target))
        (some <$> (do Build.pmcObject (← Parser.pmcObject) : Parser Target))
        (Option.map (Target.rename ρ.name)) :=
      Carries.map (R := Maps (Target.rename ρ.name))
        (pmcObject_reads.bind fun object => build (pmcObject object)) some
        (fun _ _ h => congrArg some h) fun _ _ _ => id
    exact hretcont.bind fun retcont => endOfLine_reads.bind fun _ =>
      build (callTarget callee retcont)

theorem calledNative_reads : ρ.Reads K Parser.calledNative Parser.calledNative id :=
  skipped hK <| pmcObject_reads.bind fun object => (build (pmcObject object)).bind fun callee =>
    endOfLine_reads.bind fun _ => build (nciCallTarget callee)

theorem invocant_reads : ρ.Reads K Parser.invocant Parser.invocant id :=
  skipped hK <| pmcObject_reads.bind fun object => (build (invocantTarget object)).bind fun t =>
    endOfLine_reads.bind fun _ => build (setInvocant t)

theorem calledMethod_reads : ρ.Reads K Parser.calledMethod Parser.calledMethod id :=
  skipped hK <| method_reads.bind fun m => endOfLine_reads.bind fun _ => build (methodCallTarget m)

theorem result_reads : ρ.Reads K Parser.result Parser.result id :=
  skipped hK <| resultTarget_reads.bind fun t => endOfLine_reads.bind fun _ => build (getResult t)

theorem passedArgument_reads : ρ.Reads K Parser.passedArgument Parser.passedArgument id :=
  skipped hK <| argument_reads.bind fun a => endOfLine_reads.bind fun _ => build (setArgument a)

end

end Respelling
end PirFrontend
