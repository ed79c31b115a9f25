import PirFrontend.Proofs.Crossing

/-!
Two runs of the rules for conditional branches, and of the rule that tells statements apart. The
token behind the next one may stand on the next line, but then no condition fits.
-/
namespace PirFrontend

open PirFrontend.Parser (Place Block)

namespace Pairing

variable {P : Pairing} {cr : Prop} {p : Place} {s t : Session} {k : TokenKind}
  {ks : List TokenKind}

section Reading

variable [P.Readable]

theorem isNewline_of_joinsLabel (h : Parser.joinsLabel k = true) : k.isNewline = false := by
  cases k <;> simp_all [Parser.joinsLabel, TokenKind.isKeyword, TokenKind.isOperator,
    TokenKind.isNewline]

/-- The label at the end of a branch ends the line. -/
theorem branchLabel_runs (h : P.Mid p ks s t) :
    P.Runs cr p Parser.branchLabel Parser.branchLabel s t fun a a' s' t' =>
      a = a' ∧ Still s t s' t' ∧ P.Between p s' t' := by
  apply (consumeIf_runs h Parser.joinsLabel fun _ => isNewline_of_joinsLabel).bind
  rintro b b' s₁ t₁ - - heaten
  cases heaten with
  | none hst hm _ => exact unexpected_runs hm _ _
  | token _ _ ht =>
    apply (expectName_reads ht.mid _).bind
    intro label s₂ t₂ _ _ _ hm hst
    apply (endOfLine_runs hm).bind
    rintro _ _ s₃ t₃ - - ⟨hst', hb⟩
    exact Runs.pure ⟨rfl, (ht.still.trans hst).trans hst', hb⟩

theorem gotoLabel_runs (h : P.Mid p ks s t) :
    P.Runs cr p Parser.gotoLabel Parser.gotoLabel s t fun a a' s' t' =>
      a = a' ∧ Still s t s' t' ∧ P.Between p s' t' := by
  apply (peekKind_zero h).bind
  rintro k s₁ t₁ - - - hm ⟨-, hst, -⟩
  split
  · apply (branchLabel_runs hm).imp
    rintro _ _ s₂ t₂ - - ⟨rfl, hst', hb⟩
    exact ⟨rfl, hst.trans hst', hb⟩
  · exact unexpected_runs hm _ _

/-- A question about the token behind those that are known, which is known from then on. -/
theorem atKind_next {f : Option TokenKind → Bool} (h : P.Mid p ks s t)
    (hks : ∀ k ∈ ks, k.isNewline = false) (hi : ks.length ≤ maxLookahead) :
    P.Reads cr p (do return f (← Parser.peekKind ks.length))
      (do return f (← Parser.peekKind ks.length)) s t (fun _ => ks)
      fun a s' t' => Still s t s' t' ∧ ∃ k : Option TokenKind, a = f k ∧
        P.Mid p (ks ++ k.toList) s' t' := by
  apply (peekKind_next h hks hi).then
  rintro k s' t' - - - hm ⟨hst, -⟩
  refine Reads.pure ⟨hm.rel, hm.steps, ?_⟩ ⟨hst, k, rfl, hm⟩
  simpa using hm.ahead.take ks.length

/-- A condition that begins at the end of the line is none. -/
theorem condition_newline (q : Polarity) (next : Option TokenKind)
    (h : P.Mid .body [.newline] s t) :
    P.Runs cr .body
      (match Parser.relation? next with
        | some op => Parser.relationCondition q op
        | none => if TokenKind.newline.isKeyword .null then Parser.nullCondition q next
          else Parser.valueCondition q .newline)
      (match Parser.relation? next with
        | some op => Parser.relationCondition q op
        | none => if TokenKind.newline.isKeyword .null then Parser.nullCondition q next
          else Parser.valueCondition q .newline) s t fun _ _ _ _ => False := by
  split
  · exact (value_newline h fun _ _ _ _ => False).bind fun _ _ _ _ _ _ h => h.elim
  · exact unexpected_runs h _ _

end Reading

/-- Building when the line is over already. -/
theorem completes_between {β : Type} (h : P.Between p s t) {x : Build β}
    (hx : P.Keeps p x s.builder t.builder) :
    P.Completes cr p (do let _ ← x) s t := by
  apply (runs_build hx).bind
  rintro b _ s' t' - - ⟨rfl, hrel, hs, ht⟩
  exact Runs.pure ⟨rfl, hrel, hs ▸ ht ▸ h.steps⟩

/-- A literal is no pmc. -/
theorem type_of_literal? {c : Constant} (h : Parser.literal? k = some c) : c.type ≠ .pmc := by
  unfold Parser.literal? at h
  split at h
  · obtain rfl := Option.some.inj h
    nofun
  · obtain rfl := Option.some.inj h
    nofun
  · obtain rfl := Option.some.inj h
    nofun
  · cases h

variable [P.Buildable]

theorem relationCondition_completes (q : Polarity) (op : RelOp) {o : Operator}
    (h : P.Mid .body [k, .operator o] s t) (ho : RelOp.ofOperator? o = some op) :
    P.Completes cr .body (Parser.relationCondition q op) s t := by
  have hbehind : behindValue [k, .operator o] = [.operator o] := by
    cases o <;> first | rfl | simp [RelOp.ofOperator?] at ho
  apply (value_reads h).bind
  intro left s₁ t₁ _ _ hw₁ hm hl
  rw [hbehind] at hm
  apply (advance_runs hm rfl).bind
  intro u v s₂ t₂ _ _ ht
  have hw₂ := Builder.Within.of_eq ht.still.1
  apply (value_reads ht.mid).bind
  intro right s₃ t₃ _ _ hw₃ hm hr
  apply (gotoLabel_runs hm).bind
  rintro label _ s₄ t₄ - - ⟨rfl, hst, hb⟩
  have hw₄ := Builder.Within.of_eq hst.1
  exact completes_between hb (conditionalRelation_keeps (hst.rel hm.rel) q
    (hl.within ((hw₂.trans hw₃).trans hw₄)) op (hr.within hw₄) label)

/-- What is done once it is known whether `null` names a variable. -/
theorem nullTest_completes (q : Polarity) (isVariable : Bool)
    (h : P.Mid .body [.keyword .null] s t) :
    P.Completes cr .body (do
      let _ ← Parser.advance
      if isVariable then
        let label ← Parser.branchLabel
        let _ ← Build.conditionalVariable q false "null" label
      else
        let a ← Parser.target
        let label ← Parser.gotoLabel
        let _ ← Build.conditionalTarget q true a label) s t := by
  apply (advance_runs h rfl).bind
  intro _ _ s₁ t₁ _ _ ht
  split
  · apply (branchLabel_runs ht.mid).bind
    rintro label _ s₂ t₂ - - ⟨rfl, hst, hb⟩
    exact completes_between hb
      (conditionalVariable_keeps (hst.rel ht.mid.rel) q false "null" label)
  · apply (target_reads ht.mid).bind
    intro a s₂ t₂ _ _ _ hm ha
    apply (gotoLabel_runs hm).bind
    rintro label _ s₃ t₃ - - ⟨rfl, hst, hb⟩
    exact completes_between hb
      (conditionalTarget_keeps (hst.rel hm.rel) q true (ha.1.within (.of_eq hst.1)) label)

theorem nullCondition_completes (q : Polarity) {next : Option TokenKind}
    (h : P.Mid .body ([.keyword .null] ++ next.toList) s t) :
    P.Completes cr .body (Parser.nullCondition q next) s t := by
  have hfirst {ks : List TokenKind} {s t} (h : P.Mid .body (.keyword .null :: ks) s t) :
      P.Mid .body [.keyword .null] s t := h.take 1
  unfold Parser.nullCondition andM
  cases hnext : next.any Parser.joinsLabel with
  | false => exact nullTest_completes q false (hfirst h)
  | true =>
    obtain ⟨k, rfl, hk⟩ := Option.any_eq_true _ _ |>.1 hnext
    have hk : k.isNewline = false := isNewline_of_joinsLabel hk
    simp only [pure_bind, toBool, bind_assoc]
    have hks : ∀ k' ∈ [TokenKind.keyword .null, k], k'.isNewline = false := by
      simp only [List.mem_cons, List.not_mem_nil, or_false]
      rintro _ (rfl | rfl)
      · rfl
      · exact hk
    apply (atKind_next (f := (·.any (·.isName))) h hks (by simp [maxLookahead])).bind
    rintro (_ | _) s₁ t₁ - - - - ⟨-, k', hk', hm⟩
    · exact nullTest_completes q false (hfirst hm)
    · obtain ⟨k', rfl, hname⟩ := Option.any_eq_true _ _ |>.1 hk'.symm
      refine (atKind_next (f := (·.all (·.isNewline))) hm (fun k'' hk'' => ?_)
        (by simp [maxLookahead])).bind ?_
      · obtain hk'' | hk'' := List.mem_append.1 hk''
        · exact hks _ hk''
        · obtain rfl := List.mem_singleton.1 hk''
          exact isNewline_of_isName hname
      rintro isVariable s₂ t₂ - - - hm -
      exact nullTest_completes q isVariable (hfirst hm)

/-- A condition that is a name. -/
theorem variableCondition_completes (q : Polarity) (h : P.Mid .body (k :: ks) s t)
    (hk : k.isNewline = false) :
    P.Completes cr .body (do
      let name ← Parser.advanceText
      let label ← Parser.branchLabel
      let _ ← Build.conditionalVariable q false name label) s t := by
  apply (advanceText_reads h hk).bind
  intro name s₁ t₁ _ _ _ hm _
  apply (branchLabel_runs hm).bind
  rintro label _ s₂ t₂ - - ⟨rfl, hst, hb⟩
  exact completes_between hb (conditionalVariable_keeps (hst.rel hm.rel) q false name label)

theorem valueCondition_completes (q : Polarity) (h : P.Mid .body (k :: ks) s t)
    (hk : k.isNewline = false) : P.Completes cr .body (Parser.valueCondition q k) s t := by
  unfold Parser.valueCondition
  split
  · apply (target_reads h).bind
    intro a s₁ t₁ _ _ _ hm ha
    apply (branchLabel_runs hm).bind
    rintro label _ s₂ t₂ - - ⟨rfl, hst, hb⟩
    exact completes_between hb
      (conditionalTarget_keeps (hst.rel hm.rel) q false (ha.1.within (.of_eq hst.1)) label)
  · exact variableCondition_completes q h hk
  · exact variableCondition_completes q h hk
  · cases hc : Parser.literal? k with
    | none => exact unexpected_runs h _ _
    | some c =>
      apply (advance_runs h hk).bind
      intro _ _ s₁ t₁ _ _ ht
      apply (branchLabel_runs ht.mid).bind
      rintro label _ s₂ t₂ - - ⟨rfl, hst, hb⟩
      exact completes_between hb
        (conditionalConstant_keeps (hst.rel ht.mid.rel) q (type_of_literal? hc) label)

theorem conditional_completes (q : Polarity) (h : P.Mid .body (k :: ks) s t)
    (hk : k.isNewline = false) : P.Completes True .body (Parser.conditional q) s t := by
  apply (advance_runs h hk).bind
  intro _ _ s₁ t₁ _ _ ht
  apply (peekKind_zero ht.mid).bind
  rintro (_ | k) s₂ t₂ - - - hm -
  · exact unexpected_runs hm _ _
  have hm : P.Mid .body [k] s₂ t₂ := hm.take 1
  -- If the line is over behind the word, the look ahead is into the next line, where the texts may
  -- differ; whatever it sees there, the rule breaks.
  cases hk : k.isNewline with
  | true =>
    obtain rfl := eq_newline hk
    exact peekKind_crossing [] hm (by simp) (by simp [maxLookahead])
      fun P _ cr next s t hm => condition_newline q next hm
  | false =>
    apply (peekKind_next hm (by simpa using hk) (by simp [maxLookahead])).bind
    rintro next s₃ t₃ - - - hm -
    split
    next op hop =>
      unfold Parser.relation? at hop
      split at hop
      · exact relationCondition_completes q op hm hop
      · cases hop
    next =>
      split
      next hnull =>
        obtain rfl : k = .keyword .null := by
          cases k <;> simp_all [TokenKind.isKeyword]
        exact nullCondition_completes q hm
      next => exact valueCondition_completes q hm hk

end Pairing
end PirFrontend
