import PirFrontend.Proofs.RenamedTokens

/-!
The smallest rules and the rules for values, under other names. Wherever a rule looks for a name, it
takes the name of a type as well.
-/
namespace PirFrontend
namespace Respelling

variable {ρ : Respelling} {α : Type} {K : List TokenKind → Prop}

/-! Words -/

theorem eaten (test : TokenKind → Bool)
    (htest : ∀ k : Keyword, k.IsType → test (.keyword k) = test .identifier)
    (hdeclares : ∀ k, test k = true → k.declares = false) :
    ρ.Reads K (do return (← TokenStream.consumeIf fun t => test t.kind).isSome : Parser Bool)
      (do return (← TokenStream.consumeIf fun t => test t.kind).isSome) id := by
  have hconsume := consumeIf (ρ := ρ) (K := K) (J := Anything) test htest hdeclares
    fun _ _ _ _ => trivial
  refine hconsume.bindRel fun a b hab => .pure hab fun s t h => ?_
  split at h
  · exact h
  · exact h.weaken

theorem eatOperator_reads (op : Operator) :
    ρ.Reads K (Parser.eatOperator op) (Parser.eatOperator op) id :=
  eaten (·.isOperator op) (fun _ _ => rfl) fun k hk => by cases k <;> first | rfl | cases hk

theorem eatNewline_reads : ρ.Reads K Parser.eatNewline Parser.eatNewline id :=
  eaten (·.isNewline) (fun _ _ => rfl) fun k hk => by cases k <;> first | rfl | cases hk

theorem atOperator_known {n : Nat} (hn : n ≤ maxLookahead) (op : Operator) :
    Carries (ρ.At false K) (Parser.atOperator n op) (Parser.atOperator n op) (Maps id)
      fun b => ρ.At false fun L => K L ∧ L[n]?.any (·.isOperator op) = b :=
  peekKind_map hn fun _ _ => rfl

/-- What was known is still known after a question. -/
theorem atOperator_reads {n : Nat} (hn : n ≤ maxLookahead) (op : Operator) :
    Carries (ρ.At false K) (Parser.atOperator n op) (Parser.atOperator n op) (Maps id)
      fun _ => ρ.At false K :=
  (atOperator_known hn op).after fun _ _ _ h => h.mono fun _ hK => hK.1

theorem atName_known {n : Nat} (hn : n ≤ maxLookahead) :
    Carries (ρ.At false K) (Parser.atName n) (Parser.atName n) (Maps id)
      fun b => ρ.At false fun L => K L ∧ L[n]?.any (·.isName) = b :=
  peekKind_map hn fun _ _ => rfl

theorem atEndOfLine_reads {n : Nat} (hn : n ≤ maxLookahead) :
    Carries (ρ.At false K) (Parser.atEndOfLine n) (Parser.atEndOfLine n) (Maps id)
      fun _ => ρ.At false K :=
  (peekKind_map (p := fun k => k.all (·.isNewline)) hn fun _ _ => rfl).after fun _ _ _ h =>
    h.mono fun _ hK => hK.1

theorem atAssignment_reads {n : Nat} (hn : n ≤ maxLookahead) :
    Carries (ρ.At false K) (Parser.atAssignment n) (Parser.atAssignment n) (Maps id)
      fun _ => ρ.At false K := by
  refine peekKind_bind hn (fun _ _ => rfl) fun k => ?_
  split
  · exact .pure rfl fun _ _ h => h.mono fun _ hK => hK.1
  · exact .pure rfl fun _ _ h => h.mono fun _ hK => hK.1

theorem atMethodCall_reads :
    Carries (ρ.At false K) Parser.atMethodCall Parser.atMethodCall (Maps id)
      fun _ => ρ.At false K := by
  refine (atOperator_reads (by decide) .dot).bind fun b => ?_
  cases b with
  | false => exact .pure rfl fun _ _ => id
  | true => exact atOperator_reads (by decide) .leftParen

theorem expectOperator_reads (op : Operator) :
    ρ.Reads K (Parser.expectOperator op) (Parser.expectOperator op) id := by
  refine (eatOperator_reads op).bind fun b => ?_
  cases b with
  | false => exact unexpected _
  | true => exact .pure rfl fun _ _ => id

theorem isWord_of_isName {k : TokenKind} (h : k.isName = true) : k.isWord = true := by
  cases k <;> first | rfl | cases h

theorem expectName_reads (role : String) :
    ρ.Reads K (Parser.expectName role) (Parser.expectName role) ρ.name := by
  refine (atName_known (by decide)).bind fun b => ?_
  cases b with
  | false => exact unexpected _
  | true => exact advanceText fun k L hK => ⟨isWord_of_isName (by simpa using hK.2), trivial⟩

theorem expectString_reads : ρ.Reads K Parser.expectString Parser.expectString id := by
  refine peekKind_bind (by decide) (fun _ _ => rfl) fun k => ?_
  obtain _ | k := k
  · exact unexpected _
  cases k with
  | string s =>
    exact (advance_known (known_ahead rfl)).bindRel fun _ _ _ => .pure rfl fun _ _ => id
  | _ => exact unexpected _

theorem endOfLine_reads : ρ.Reads K Parser.endOfLine Parser.endOfLine id := by
  refine eatNewline_reads.bind fun b => ?_
  cases b with
  | true => exact .pure rfl fun _ _ => id
  | false =>
    refine peekKind_bind (by decide) (fun _ _ => rfl) fun k => ?_
    cases k with
    | none => exact .pure rfl fun _ _ h => h.weaken
    | some k => exact unexpected _

/-- A step that is repeated. -/
theorem repeatWhile_reads {step : Parser Bool}
    (hprogress : ∀ s s', step.run s = (.ok true, s') → s'.size < s.size)
    (hstep : ρ.Reads Anything step step id) :
    ρ.Reads Anything (Act.repeatWhile step) (Act.repeatWhile step) id := by
  have hprogresses := Parser.progresses_of_step hprogress
  refine .iterate (R := Maps id) hprogresses hprogresses (fun _ _ _ => ?_) rfl
  refine hstep.bind fun b => .pure ⟨rfl, rfl⟩ fun _ _ h => ?_
  cases b <;> exact h

theorem skipNewlines_reads : ρ.Reads K Parser.skipNewlines Parser.skipNewlines id :=
  (repeatWhile_reads Parser.size_eatNewline eatNewline_reads).before fun _ _ h => h.weaken

theorem parenString_reads : ρ.Reads K Parser.parenString Parser.parenString id :=
  (expectOperator_reads .leftParen).bind fun _ => expectString_reads.bind fun _ =>
    (expectOperator_reads .rightParen).bind fun _ => .pure rfl fun _ _ => id

theorem optionalParenString_reads :
    ρ.Reads K Parser.optionalParenString Parser.optionalParenString id := by
  refine (atOperator_reads (by decide) .leftParen).bind fun b => ?_
  cases b with
  | false => exact .pure rfl fun _ _ h => h.weaken
  | true => exact parenString_reads.map some (fun _ _ h => congrArg some h) fun _ _ _ => id

variable {item : Parser α} {r : α → α}

theorem nextItem_reads (op : Operator) (h : ρ.Reads Anything item item r) {as bs : List α}
    (hab : Maps (List.map r) as bs) :
    Carries (ρ.At false Anything) (Parser.nextItem op item as) (Parser.nextItem op item bs)
      (fun p q => Maps (List.map r) p.1 q.1 ∧ q.2 = p.2) fun _ => ρ.At false Anything := by
  refine h.bind fun a => (eatOperator_reads op).bind fun b => .pure ⟨?_, rfl⟩ fun _ _ => id
  rw [Maps, hab, List.map_append, List.map_singleton]

theorem separated_reads (op : Operator) (hshrinks : item.Shrinks)
    (h : ρ.Reads Anything item item r) :
    ρ.Reads K (Parser.separated op item) (Parser.separated op item) (List.map r) := by
  have hprogresses := Parser.nextItem_progresses hshrinks op
  refine Carries.before (.iterate hprogresses hprogresses (fun as bs hab => ?_) rfl)
    fun _ _ h => h.weaken
  exact (nextItem_reads op h hab).after fun p _ _ hat => by split <;> exact hat

theorem parenthesized_reads (hshrinks : item.Shrinks) (h : ρ.Reads Anything item item r) :
    ρ.Reads K (Parser.parenthesized item) (Parser.parenthesized item) (List.map r) := by
  refine (expectOperator_reads .leftParen).bind fun _ =>
    (eatOperator_reads .rightParen).bind fun b => ?_
  cases b with
  | true => exact .pure rfl fun _ _ => id
  | false =>
    exact (separated_reads .comma hshrinks h).bind fun _ =>
      (expectOperator_reads .rightParen).bind fun _ => .pure rfl fun _ _ => id

/-! Values -/

/-- Behind a target is what was known to be there. -/
theorem target_known {J : List TokenKind → Prop} (hJ : ∀ k L, K (k :: L) → J L) :
    Carries (ρ.At false K) Parser.target Parser.target (Maps (Target.rename ρ.name))
      fun _ => ρ.At false J := by
  refine peekKind_bind (by decide) (fun _ _ => rfl) fun k => ?_
  obtain _ | k := k
  · exact unexpected _
  cases k with
  | register cls number =>
    exact (advance_known fun k L hK => ⟨(known_ahead rfl k L hK).1, hJ k L hK.1⟩).bindRel
      fun _ _ _ => .pure (Target.rename_register _ _).symm fun _ _ => id
  | identifier | keyword =>
    exact (advanceText fun k L hK => ⟨(word_ahead rfl k L hK).1, hJ k L hK.1⟩).bind fun name =>
      build (symbolTarget name)
  | _ => exact unexpected _

theorem target_reads : ρ.Reads K Parser.target Parser.target (Target.rename ρ.name) :=
  target_known fun _ _ _ => trivial

/-- A target as an operand. -/
theorem targetOperand_known {J : List TokenKind → Prop} (hJ : ∀ k L, K (k :: L) → J L) :
    Carries (ρ.At false K) (do return .target (← Parser.target) : Parser Expression)
      (do return .target (← Parser.target)) (Maps (Expression.rename ρ.name))
      fun _ => ρ.At false J :=
  (target_known hJ).bind fun t => .pure (Expression.rename_target t).symm fun _ _ => id

theorem targetOperand_reads :
    ρ.Reads K (do return .target (← Parser.target) : Parser Expression)
      (do return .target (← Parser.target)) (Expression.rename ρ.name) :=
  targetOperand_known fun _ _ _ => trivial

section

variable {inner inner' : Parser Expression}

theorem nextEntry_reads (h : ρ.Reads Anything inner inner' (Expression.rename ρ.name))
    {es fs : List Expression} (hes : Maps (List.map (Expression.rename ρ.name)) es fs) :
    Carries (ρ.At false Anything) (Parser.nextEntry inner es) (Parser.nextEntry inner' fs)
      (fun p q => Maps (List.map (Expression.rename ρ.name)) p.1 q.1 ∧ q.2 = p.2)
      fun _ => ρ.At false Anything := by
  refine (eatOperator_reads .semicolon).bind fun b => ?_
  cases b with
  | false => exact .pure ⟨hes, rfl⟩ fun _ _ => id
  | true =>
    refine h.bind fun e => .pure ⟨?_, rfl⟩ fun _ _ => id
    rw [Maps, hes, List.map_append, List.map_singleton]

theorem keyOf_reads (hshrinks : inner.Shrinks) (hshrinks' : inner'.Shrinks)
    (h : ρ.Reads Anything inner inner' (Expression.rename ρ.name)) :
    ρ.Reads K (Parser.keyOf inner) (Parser.keyOf inner') (Key.rename ρ.name) := by
  refine (expectOperator_reads .leftBracket).bind fun _ => h.bind fun first => ?_
  have hmore : ρ.Reads Anything (Act.iterate (Parser.nextEntry inner) [])
      (Act.iterate (Parser.nextEntry inner') []) (List.map (Expression.rename ρ.name)) := by
    refine .iterate (Parser.nextEntry_progresses hshrinks)
      (Parser.nextEntry_progresses hshrinks') (fun es fs hes => ?_) rfl
    exact (nextEntry_reads h hes).after fun p _ _ hat => by split <;> exact hat
  refine hmore.bind fun more => (expectOperator_reads .rightBracket).bind fun _ =>
    .pure ?_ fun _ _ => id
  rw [Maps, Key.rename_eq]

/-- An object with its index as an operand. -/
theorem indexedOperand_reads (hshrinks : inner.Shrinks) (hshrinks' : inner'.Shrinks)
    (h : ρ.Reads Anything inner inner' (Expression.rename ρ.name)) (object : PmcObject) :
    ρ.Reads K
      (do let k ← Parser.keyOf inner; return .target (← Build.indexedTarget object k) :
        Parser Expression)
      (do
        let k ← Parser.keyOf inner'
        return .target (← Build.indexedTarget (object.rename ρ.name) k))
      (Expression.rename ρ.name) :=
  (keyOf_reads hshrinks hshrinks' h).bind fun k => (build (indexedTarget object k)).bind fun t =>
    .pure (Expression.rename_target t).symm fun _ _ => id

end

theorem rename_literal {k : TokenKind} {c : Constant} (h : Parser.literal? k = some c) :
    c.rename ρ.name = c := by
  cases k <;> cases h <;> rfl

theorem declares_of_literal {k : TokenKind} (h : (Parser.literal? k).isSome = true) :
    k.declares = false := by
  cases k <;> first | rfl | cases h

/-- A literal is taken for what it is. -/
theorem literal_known {k : TokenKind} {c : Constant} {J : List TokenKind → Prop}
    (hc : Parser.literal? k = some c) (hK : ∀ k' L, K (k' :: L) → k' = k ∧ J L) :
    Carries (ρ.At false K)
      (do let _ ← Parser.advance; return Expression.constant c : Parser Expression)
      (do let _ ← Parser.advance; return Expression.constant c)
      (Maps (Expression.rename ρ.name)) fun _ => ρ.At false J := by
  refine (advance_known fun k' L hL => ?_).bindRel fun _ _ _ => .pure ?_ fun _ _ => id
  · obtain ⟨rfl, hJ⟩ := hK k' L hL
    exact ⟨declares_of_literal (by rw [hc]; rfl), hJ⟩
  · rw [Maps, Expression.rename_constant, rename_literal hc]

theorem valueStep_reads {inner inner' : Parser Expression} (hshrinks : inner.Shrinks)
    (hshrinks' : inner'.Shrinks) (h : ρ.Reads Anything inner inner' (Expression.rename ρ.name)) :
    ρ.Reads K (Parser.valueStep inner) (Parser.valueStep inner') (Expression.rename ρ.name) := by
  have hindexed {K : List TokenKind → Prop} (object : PmcObject) :=
    indexedOperand_reads (K := K) hshrinks hshrinks' h object
  refine peekKind_bind (by decide) (fun _ _ => rfl) fun k => ?_
  obtain _ | k := k
  · exact unexpected _
  cases k with
  | register cls number =>
    cases cls with
    | pmc =>
      refine (atOperator_reads (by decide) .leftBracket).bind fun b => ?_
      cases b with
      | false => exact targetOperand_reads
      | true =>
        exact (advance_known (known_ahead rfl)).bindRel fun _ _ _ => hindexed (.register number)
    | _ => exact targetOperand_reads
  | identifier | keyword =>
    refine (advanceText (word_ahead rfl)).bind fun name =>
      (atOperator_reads (by decide) .leftBracket).bind fun b => ?_
    cases b with
    | false => exact build (identifierValue name)
    | true => exact hindexed (.named name)
  | int | num | string =>
    exact literal_known rfl fun k L hL => ⟨Option.some.inj hL.2, trivial⟩
  | _ => exact unexpected _

theorem value_reads : ρ.Reads K Parser.value Parser.value (Expression.rename ρ.name) := by
  have hvalue : ρ.Reads Anything Parser.value Parser.value (Expression.rename ρ.name) :=
    .nest Parser.valueStep_guarded (S := Parser.Shrinks) (fun _ _ _ h => by cases h)
      (fun _ => Parser.valueStep_shrinks) fun _ _ => valueStep_reads
  exact hvalue.before fun _ _ h => h.weaken

/-- A value in front of an operator that opens no key is one token. -/
theorem value_before {op : Operator} (hop : op ≠ .leftBracket)
    (hK : ∀ L, K L → L[1]? = some (.operator op)) :
    Carries (ρ.At false K) Parser.value Parser.value (Maps (Expression.rename ρ.name))
      fun _ => ρ.At false fun L => L[0]? = some (.operator op) := by
  have hbehind : ∀ k L, K (k :: L) → L[0]? = some (.operator op) := fun k L hL => hK _ hL
  have hbracket : (some (TokenKind.operator op)).any (·.isOperator .leftBracket) = false := by
    simpa [TokenKind.isOperator] using hop
  have hstep : Parser.value = Parser.valueStep Parser.value :=
    funext fun s => Act.run_nest Parser.valueStep_guarded s
  have hindexed (object : PmcObject) := indexedOperand_reads (ρ := ρ) (K := Anything)
    Parser.value_shrinks Parser.value_shrinks value_reads object
  rw [hstep]
  refine peekKind_bind (by decide) (fun _ _ => rfl) fun k => ?_
  obtain _ | k := k
  · exact unexpected _
  cases k with
  | register cls number =>
    cases cls with
    | pmc =>
      refine (atOperator_known (by decide) .leftBracket).bind fun b => ?_
      cases b with
      | false => exact targetOperand_known fun k L hL => hbehind k L hL.1.1
      | true =>
        -- The operator is no bracket, so this branch cannot be.
        refine (advance_known (d := false) (J := fun _ => False) fun k L hL => ?_).bindRel
          fun _ _ _ => (hindexed (.register number)).vacuous.before fun _ _ h => h.elim fun _ => id
        have := hL.2
        rw [hK _ hL.1.1, hbracket] at this
        cases this
    | _ => exact targetOperand_known fun k L hL => hbehind k L hL.1
  | identifier | keyword =>
    refine (advanceText fun k L hL =>
      ⟨(word_ahead rfl k L hL).1, hbehind k L hL.1⟩).bind fun name =>
      (atOperator_known (by decide) .leftBracket).bind fun b => ?_
    cases b with
    | false =>
      exact (build (identifierValue name)).after fun _ _ _ h => h.mono fun _ hL => hL.1
    | true =>
      refine (hindexed (.named name)).vacuous.before fun s t h => ?_
      refine h.elim fun L hL => ?_
      have := hL.2
      rw [hL.1, hbracket] at this
      cases this
  | int | num | string =>
    exact literal_known rfl fun k L hL => ⟨Option.some.inj hL.2, hbehind k L hL.1⟩
  | _ => exact unexpected _

theorem key_reads : ρ.Reads K Parser.key Parser.key (Key.rename ρ.name) :=
  keyOf_reads Parser.value_shrinks Parser.value_shrinks value_reads

theorem pmcObject_reads :
    ρ.Reads K Parser.pmcObject Parser.pmcObject (PmcObject.rename ρ.name) := by
  refine peekKind_bind (by decide) (fun _ _ => rfl) fun k => ?_
  obtain _ | k := k
  · exact unexpected _
  cases k with
  | register cls number =>
    cases cls with
    | pmc =>
      exact (advance_known (known_ahead rfl)).bindRel fun _ _ _ => .pure rfl fun _ _ => id
    | _ => exact unexpected _
  | identifier | keyword =>
    exact (advanceText (word_ahead rfl)).bind fun name => .pure rfl fun _ _ => id
  | _ => exact unexpected _

/-- A name among operands. -/
theorem operandOfName_reads (name : String) :
    ρ.Reads K (do let s ← getThe Session; return s.builder.identifierOperand name :
        Parser Expression)
      (do let s ← getThe Session; return s.builder.identifierOperand (ρ.name name))
      (Expression.rename ρ.name) where
  clean hrun hclean := by
    cases hrun
    exact hclean
  carry h hrun _ := by
    cases hrun
    exact ⟨_, _, rfl, h.builders.identifierOperand name, h.weaken⟩

theorem opArgument_reads :
    ρ.Reads K Parser.opArgument Parser.opArgument (Expression.rename ρ.name) := by
  refine peekKind_bind (by decide) (fun _ _ => rfl) fun k => ?_
  obtain _ | k := k
  · exact value_reads
  cases k with
  | identifier | keyword =>
    refine (atOperator_reads (by decide) .leftBracket).bind fun b => ?_
    cases b with
    | true => exact value_reads
    | false =>
      exact (advanceText (word_ahead rfl)).bind fun name => operandOfName_reads name
  | operator op =>
    cases op with
    | leftBracket =>
      exact key_reads.bind fun k => .pure (Expression.rename_key k).symm fun _ _ => id
    | _ => exact value_reads
  | _ => exact value_reads

theorem opArguments_reads :
    ρ.Reads K Parser.opArguments Parser.opArguments (List.map (Expression.rename ρ.name)) := by
  refine (atEndOfLine_reads (by decide)).bind fun b => ?_
  cases b with
  | true => exact .pure rfl fun _ _ h => h.weaken
  | false => exact separated_reads .comma Parser.opArgument_shrinks opArgument_reads

end Respelling
end PirFrontend
