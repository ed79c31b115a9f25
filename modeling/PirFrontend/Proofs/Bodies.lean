import PirFrontend.Proofs.Blanks
import PirFrontend.Proofs.Conditions
import PirFrontend.Proofs.Mending

/-!
Two runs of a line of a body or of a block. A line may begin a block or end one, and so changes
the place for the lines behind it.
-/
namespace PirFrontend

open PirFrontend.Parser (Place Block)

/-- The text is over or goes on with what ends a subroutine, be it open or not. -/
def Outward (L : List Step) : Prop :=
  ∀ t M, L = .ok t :: M → t.kind = .directive .endSub ∨ t.kind = .directive .sub

theorem outward_nil : Outward [] := nofun

theorem outward_directive {d : Directive} {ks : List TokenKind} {L : List Step}
    (h : Ahead (.directive d :: ks) L) (hd : d = .endSub ∨ d = .sub) : Outward L := by
  intro t M rfl
  rw [h.1]
  exact hd.imp (congrArg _) (congrArg _)

namespace Pairing

variable {α : Type} {P : Pairing} {cr : Prop} {p : Place} {s t : Session}
  {k : TokenKind} {ks : List TokenKind}

section Building

variable [P.Buildable]

/-! Statements by their first tokens -/

theorem nameStatement_completes (h : P.Mid .body (k :: ks) s t) (hk : k.isNewline = false) :
    P.Completes True .body Parser.nameStatement s t := by
  have hm : P.Mid .body [k] s t := h.take 1
  apply (peekKind_next hm (by simpa using hk) (by simp [maxLookahead])).bind
  rintro next s₁ t₁ - - - hm -
  -- What is behind the name tells which statement it is.
  split
  · apply (advanceText_reads hm hk).bind
    intro name s₂ t₂ _ _ _ hm _
    apply (reads_build hm (symbolTarget_answers hm.rel name)).bind
    intro a s₃ t₃ _ _ _ hm ha
    apply (advance_runs hm rfl).bind
    intro _ _ s₄ t₄ _ _ ht
    exact assignment_completes ht.mid (ha.within (.of_eq ht.still.1))
  · exact callStatement_completes hm
  · exact callStatement_completes hm
  · apply (advanceText_reads hm hk).bind
    intro name s₂ t₂ _ _ _ hm _
    exact keyedStore_completes hm (.named name)
  · split
    · apply (advanceText_reads hm hk).bind
      intro name s₂ t₂ _ _ _ hm _
      apply (reads_build hm (symbolTarget_answers hm.rel name)).bind
      intro a s₃ t₃ _ _ _ hm ha
      exact augmented_completes hm rfl ha
    · exact opStatement_completes hm hk
  · exact opStatement_completes hm hk

theorem strayRegister_completes (h : P.Mid .body (k :: ks) s t) (hk : k.isNewline = false) :
    P.Completes cr .body Parser.strayRegister s t :=
  (advance_runs h hk).bind fun _ _ _ _ _ _ ht => unexpected_runs ht.mid _ _

theorem registerStatement_completes (cls : RegisterClass) (number : Nat)
    (h : P.Mid .body [.register cls number] s t) :
    P.Completes True .body (Parser.registerStatement cls number) s t := by
  apply (peekKind_next h (by simp [TokenKind.isNewline]) (by simp [maxLookahead])).bind
  rintro next s₁ t₁ - - - hm -
  split
  · apply (target_reads hm).bind
    intro a s₂ t₂ _ _ _ hm ha
    apply (advance_runs hm rfl).bind
    intro _ _ s₃ t₃ _ _ ht
    exact assignment_completes ht.mid (ha.1.within (.of_eq ht.still.1))
  · exact callStatement_completes hm
  · exact callStatement_completes hm
  · split
    · apply (advance_runs hm rfl).bind
      intro _ _ s₂ t₂ _ _ ht
      exact keyedStore_completes ht.mid (.register number)
    · exact strayRegister_completes hm rfl
  · split
    · apply (target_reads hm).bind
      intro a s₂ t₂ _ _ _ hm ha
      exact augmented_completes hm rfl ha.1
    · exact strayRegister_completes hm rfl
  · exact strayRegister_completes hm rfl

theorem atAssignment_reads (h : P.Mid p (k :: ks) s t) (hk : k.isNewline = false) :
    P.Reads cr p (Parser.atAssignment 1) (Parser.atAssignment 1) s t (fun _ => [k])
      fun _ s' t' => Still s t s' t' := by
  have hm : P.Mid p [k] s t := h.take 1
  apply (peekKind_next hm (by simpa using hk) (by simp [maxLookahead])).then
  rintro next s₁ t₁ - - - hm ⟨hst, -⟩
  have hm' : P.Mid p [k] s₁ t₁ := hm.take 1
  split <;> exact .pure hm' hst

theorem statement_completes (h : P.Mid .body ks s t) :
    P.Completes True .body Parser.statement s t := by
  apply (peekKind_zero h).bind
  rintro (_ | k) s₁ t₁ - - - hm -
  · exact unexpected_runs hm _ _
  dsimp only
  split
  · exact conditional_completes _ hm rfl
  · exact conditional_completes _ hm rfl
  -- The words `goto` and `null` may be names of variables, too.
  · apply (atAssignment_reads hm rfl).bind
    rintro (_ | _) s₂ t₂ - - - hm -
    · exact gotoStatement_completes hm rfl
    · exact nameStatement_completes hm rfl
  · apply (atAssignment_reads hm rfl).bind
    rintro (_ | _) s₂ t₂ - - - hm -
    · exact nullStatement_completes hm rfl
    · exact nameStatement_completes hm rfl
  · exact nameStatement_completes hm rfl
  · exact nameStatement_completes hm rfl
  next cls number =>
    exact registerStatement_completes cls number (hm.take 1)
  · exact callStatement_completes hm
  · exact resultStatement_completes hm
  next d => exact (directiveStatement_completes d hm).cross fun h => h
  · exact unexpected_runs hm _ _

/-! Blocks -/

/-- The first line of a block leads into it. -/
theorem blockHeader_runs (block : Block) (h : P.Mid .body (k :: ks) s t)
    (hk : k.isNewline = false) (hp : s.builder.pendingInstruction = none) :
    P.Runs cr .body (Parser.blockHeader block) (Parser.blockHeader block) s t
      fun _ _ s' t' => P.Between (.block block) s' t' := by
  apply (advance_runs h hk).bind
  intro _ _ s₁ t₁ _ _ ht
  apply (endOfLine_runs ht.mid).bind
  rintro _ _ s₂ t₂ - - ⟨hst, hb⟩
  apply runs_change.imp
  rintro _ _ _ _ - - ⟨rfl, rfl⟩
  rw [← ht.still.1, ← hst.1] at hp
  exact ⟨Buildable.beginBlock block (hst.rel ht.mid.rel) hp, hb.steps⟩

/-- A statement stays in the body or begins a block. -/
theorem statementOrBlock_runs (h : P.Mid .body ks s t)
    (hp : s.builder.pendingInstruction = none) :
    P.Runs True .body Parser.statementOrBlock Parser.statementOrBlock s t
      fun a a' s' t' => a = a' ∧ P.Between (a.elim .body .block) s' t' := by
  have hstatement (s t) (h : P.Mid .body [] s t) : P.Runs True .body
      (do Parser.statement; pure none) (do Parser.statement; pure none) s t
      fun (a a' : Option Block) s' t' => a = a' ∧ P.Between (a.elim .body .block) s' t' := by
    apply (statement_completes h).bind
    rintro _ _ s' t' - - ⟨-, hb⟩
    exact .pure ⟨rfl, hb⟩
  apply (peekKind_zero h).bind
  rintro next s₁ t₁ - - - hm ⟨-, hst, -⟩
  split
  · split
    next block _ =>
      apply (blockHeader_runs block hm rfl (hst.1 ▸ hp)).bind
      rintro _ _ s₂ t₂ - - hb
      exact .pure ⟨rfl, hb⟩
    next => exact hstatement s₁ t₁ hm.weaken
  next => exact hstatement s₁ t₁ hm.weaken

end Building

variable [P.Lawful]

theorem labelledStatement_runs (h : P.Mid .body ks s t)
    (hp : s.builder.pendingInstruction = none) :
    P.Runs True .body Parser.labelledStatement Parser.labelledStatement s t
      fun a a' s' t' => a = a' ∧ P.Between (a.elim .body .block) s' t' := by
  apply (peekKind_zero h).bind
  rintro next s₁ t₁ - - - hm ⟨-, hst, -⟩
  split
  next =>
    apply (advanceText_reads hm rfl).bind
    intro label s₂ t₂ _ _ _ hm hst'
    -- A label builds something before the line is over, so it is asked for separately.
    have hset := (Lawful.setLabel label hm.rel).leaves (Build.setLabel_leaves label)
    apply (runs_build hset).bind
    rintro _ _ s₃ t₃ - - ⟨-, ⟨hpast, hp', -⟩, hs, ht⟩
    rw [hst'.1.1, hst.1, hp] at hp'
    have hm' : P.Mid .body [] s₃ t₃ := ⟨Lawful.next hpast, hs ▸ ht ▸ hm.steps, trivial⟩
    apply (atKind_zero (f := (·.all (·.isNewline))) hm').bind
    rintro (_ | _) s₄ t₄ - - - hm ⟨hst, _⟩
    · exact statementOrBlock_runs hm (hst.1 ▸ hp')
    · apply (endOfLine_runs hm).bind
      rintro _ _ s₅ t₅ - - ⟨-, hb⟩
      exact .pure ⟨rfl, hb⟩
  next => exact statementOrBlock_runs hm.weaken (hst.1 ▸ hp)

/-- An object of the program that is called by its name or in its register. -/
theorem calledObject_reads (h : P.Mid p ks s t) :
    P.Reads cr p (do Build.pmcObject (← Parser.pmcObject))
      (do Build.pmcObject (← Parser.pmcObject)) s t (fun _ => [])
      fun a s' _ => s'.builder.Made (.target a) := by
  apply (pmcObject_reads h).then
  intro object s₁ t₁ _ _ _ hm _
  exact (reads_build hm (pmcObject_answers hm.rel object)).imp fun _ _ _ _ hm ha => ⟨hm.weaken, ha⟩

/-- A line of a block that changes the block. -/
theorem completes_put {b : Block} (h : P.Mid (.block b) ks s t) (part : BlockPart)
    (hf : part.fits b) (hm : part.Made s.builder) :
    P.Completes cr (.block b) (do Parser.endOfLine; Build.changeCall part.put) s t :=
  completes_build h (Lawful.changeCall h.rel hf hm)

theorem calledSub_completes (h : P.Mid (.block .call) (k :: ks) s t) (hk : k.isNewline = false) :
    P.Completes cr (.block .call) Parser.calledSub s t := by
  apply (advance_runs h hk).bind
  intro _ _ s₁ t₁ _ _ ht
  apply (pmcObject_reads ht.mid).bind
  intro object s₂ t₂ _ _ _ hm _
  apply (reads_build hm (pmcObject_answers hm.rel object)).bind
  intro callee s₃ t₃ _ _ _ hm hc
  apply (eatOperator_reads hm .comma).bind
  rintro (_ | _) s₄ t₄ - - hw hm -
  · exact completes_put hm (.call callee none) rfl ⟨hc.within hw, nofun⟩
  · apply ((calledObject_reads hm).map some).bind
    rintro _ s₅ t₅ - - hw' hm ⟨retcont, rfl, hr⟩
    exact completes_put hm (.call callee (some retcont)) rfl
      ⟨hc.within (hw.trans hw'), by simpa using hr⟩

theorem calledNative_completes (h : P.Mid (.block .call) (k :: ks) s t)
    (hk : k.isNewline = false) : P.Completes cr (.block .call) Parser.calledNative s t := by
  apply (advance_runs h hk).bind
  intro _ _ s₁ t₁ _ _ ht
  apply (pmcObject_reads ht.mid).bind
  intro object s₂ t₂ _ _ _ hm _
  apply (reads_build hm (pmcObject_answers hm.rel object)).bind
  intro callee s₃ t₃ _ _ _ hm hc
  exact completes_put hm (.native callee) rfl hc

theorem invocant_completes (h : P.Mid (.block .call) (k :: ks) s t) (hk : k.isNewline = false) :
    P.Completes cr (.block .call) Parser.invocant s t := by
  apply (advance_runs h hk).bind
  intro _ _ s₁ t₁ _ _ ht
  apply (pmcObject_reads ht.mid).bind
  intro object s₂ t₂ _ _ _ hm _
  apply (reads_build hm (invocantTarget_answers hm.rel object)).bind
  intro a s₃ t₃ _ _ _ hm ha
  exact completes_put hm (.invocant a) rfl ha

theorem calledMethod_completes (h : P.Mid (.block .call) (k :: ks) s t)
    (hk : k.isNewline = false) : P.Completes cr (.block .call) Parser.calledMethod s t := by
  apply (advance_runs h hk).bind
  intro _ _ s₁ t₁ _ _ ht
  apply (method_reads ht.mid).bind
  intro m s₂ t₂ _ _ _ hm hmade
  exact completes_put hm (.method m) rfl hmade

theorem result_completes (h : P.Mid (.block .call) (k :: ks) s t) (hk : k.isNewline = false) :
    P.Completes cr (.block .call) Parser.result s t := by
  apply (advance_runs h hk).bind
  intro _ _ s₁ t₁ _ _ ht
  apply (resultTarget_reads ht.mid).bind
  intro a s₂ t₂ _ _ _ hm ha
  exact completes_put hm (.result a) rfl ha

theorem passedArgument_completes {b : Block} (h : P.Mid (.block b) (k :: ks) s t)
    (hk : k.isNewline = false) : P.Completes cr (.block b) Parser.passedArgument s t := by
  apply (advance_runs h hk).bind
  intro _ _ s₁ t₁ _ _ ht
  apply (argument_reads ht.mid.weaken).bind
  intro a s₂ t₂ _ _ _ hm ha
  exact completes_put hm (.argument a) trivial ha

theorem callDirective_completes (d : Directive)
    (h : P.Mid (.block .call) (.directive d :: ks) s t) :
    P.Completes cr (.block .call) (Parser.callDirective d) s t := by
  unfold Parser.callDirective
  split
  · exact calledSub_completes h rfl
  · exact calledNative_completes h rfl
  · exact invocant_completes h rfl
  · exact calledMethod_completes h rfl
  · exact result_completes h rfl
  · exact localDeclaration_completes nofun h rfl
  · exact unexpected_runs h _ _

/-- Two runs have come to a place: between two lines or, if they have come from a deeper one, in
front of what they left unread. -/
structure Reached (P : Pairing) (p q : Place) (s t : Session) : Prop where
  rel : P.rel q s.builder t.builder
  steps : P.start s.steps t.steps ∨
    P.mid s.steps t.steps ∧ q.depth < p.depth ∧ Outward s.steps

theorem Between.reached {q : Place} (h : P.Between q s t) : P.Reached p q s t :=
  ⟨Lawful.next h.past, .inl h.steps⟩

/-- A line of a block that begins with a directive. -/
theorem blockDirective_runs (b : Block) (d : Directive)
    (h : P.Mid (.block b) (.directive d :: ks) s t) :
    P.Runs cr (.block b) (Parser.blockDirective b d) (Parser.blockDirective b d) s t
      fun a a' s' t' => a = a' ∧ P.Reached (.block b) (if a then .block b else .body) s' t' := by
  -- A directive of the block leaves the place as it is.
  have hstays {x : Parser Unit} (hx : P.Completes cr (.block b) x s t) :
      P.Runs cr (.block b) (do x; pure true) (do x; pure true) s t
      fun a a' s' t' => a = a' ∧ P.Reached (.block b) (if a then .block b else .body) s' t' := by
    apply hx.bind
    rintro _ _ s' t' - - ⟨-, hb⟩
    exact .pure ⟨rfl, hb.reached⟩
  unfold Parser.blockDirective
  split
  next =>
    apply (advance_runs h rfl).bind
    intro _ _ s₁ t₁ _ _ ht
    apply (endOfLine_runs ht.mid).bind
    rintro _ _ s₂ t₂ - - ⟨-, hb⟩
    apply (runs_build (Lawful.endCall (Lawful.next hb.past))).bind
    rintro _ _ s₃ t₃ - - ⟨-, hrel, hs, ht⟩
    exact .pure ⟨rfl, hrel, .inl (hs ▸ ht ▸ hb.steps)⟩
  next =>
    split
    next hd =>
      apply (runs_build (Lawful.malformed _ h.rel)).bind
      rintro _ _ s₁ t₁ - - ⟨-, hpast, hs, ht⟩
      -- The block is left, but the directive that ends the subroutine was not taken.
      exact .pure ⟨rfl, Lawful.leaveBlock (Lawful.next hpast), .inr ⟨hs ▸ ht ▸ h.steps,
        Nat.lt_succ_self 1, hs ▸ outward_directive h.ahead hd⟩⟩
    next =>
      split
      next => exact hstays (passedArgument_completes h rfl)
      next =>
        split
        next hcall =>
          subst hcall
          exact hstays (callDirective_completes d h)
        next => exact unexpected_runs h _ _

/-- A line of a block. -/
theorem blockLine_runs (b : Block) (h : P.Mid (.block b) ks s t) (hs : Filled s.steps)
    (ht : Filled t.steps) :
    P.Runs cr (.block b) (Parser.blockLine b) (Parser.blockLine b) s t
      fun a a' s' t' => a = a' ∧ P.Reached (.block b) (if a then .block b else .body) s' t' := by
  apply (skipNewlines_runs h hs ht).bind
  intro _ _ s₁ t₁ _ _ hm
  apply (peek_zero hm.weaken).bind
  rintro a a' s₂ t₂ - - ⟨-, hseen⟩
  cases hseen with
  -- At the end of the text the block is left, and nothing was read for it.
  | none _ hend _ hm =>
    apply (runs_build (Lawful.malformed _ hm.rel)).bind
    rintro _ _ s₃ t₃ - - ⟨-, hpast, hs, ht⟩
    exact .pure ⟨rfl, Lawful.leaveBlock (Lawful.next hpast), .inr ⟨hs ▸ ht ▸ hm.steps,
      Nat.lt_succ_self 1, hs.trans hend ▸ outward_nil⟩⟩
  | @token u v htok _ hm =>
    dsimp only
    rw [← (Readable.like htok).kind]
    apply runs_change.bind
    rintro _ _ _ _ - - ⟨rfl, rfl⟩
    have hm : P.Mid (.block b) [u.kind] ⟨s₂.tokens, _⟩ ⟨t₂.tokens, _⟩ :=
      ⟨Lawful.line htok hm.rel, hm.steps, hm.ahead⟩
    split
    next d hd =>
      rw [hd] at hm
      exact blockDirective_runs b d hm
    next => exact unexpected_runs hm _ _

/-! Bodies -/

theorem endSub_runs (h : P.Mid .body (k :: ks) s t) (hk : k.isNewline = false) :
    P.Runs cr .body Parser.endSub Parser.endSub s t
      fun a a' s' t' => a = a' ∧ P.Reached .body a s' t' := by
  apply (advance_runs h hk).bind
  intro _ _ s₁ t₁ _ _ ht
  apply runs_change.bind
  rintro _ _ _ _ - - ⟨rfl, rfl⟩
  have hm : P.Mid .top ks ⟨s₁.tokens, _⟩ ⟨t₁.tokens, _⟩ :=
    ⟨Lawful.closeSub ht.mid.rel, ht.mid.steps, ht.mid.ahead⟩
  apply (attempt_runs (endOfLine_runs hm)).bind
  rintro _ _ s₂ t₂ - - (⟨-, hb⟩ | ⟨-, -, hb⟩)
  · exact .pure ⟨rfl, hb.reached⟩
  · exact .pure ⟨rfl, hb.reached⟩

/-- A statement is over. -/
theorem endStatement_runs {q : Place} (h : P.Reached q .body s t) :
    P.Runs cr p Parser.endStatement Parser.endStatement s t
      fun a a' s' t' => a = a' ∧ P.Reached q a s' t' := by
  apply runs_change.bind
  rintro _ _ _ _ - - ⟨rfl, rfl⟩
  exact .pure ⟨rfl, Lawful.drop h.rel, h.steps⟩

/-- The line of a body in front of which its subroutine is closed stays unread. -/
theorem closedEarly_runs (h : P.Mid .body ks s t) (ho : Outward s.steps) (message : String) :
    P.Runs cr .body
      (do Build.malformed message; Act.change (·.closeSub.2); pure Place.top)
      (do Build.malformed message; Act.change (·.closeSub.2); pure Place.top) s t
      fun a a' s' t' => a = a' ∧ P.Reached .body a s' t' := by
  apply (runs_build (Lawful.malformed _ h.rel)).bind
  rintro _ _ s₁ t₁ - - ⟨-, hpast, hs, ht⟩
  apply runs_change.bind
  rintro _ _ _ _ - - ⟨rfl, rfl⟩
  exact .pure ⟨rfl, Lawful.closeSub (Lawful.next hpast), .inr ⟨hs ▸ ht ▸ h.steps,
    Nat.lt_succ_self 0, hs ▸ ho⟩⟩

theorem bodyLine_runs (h : P.Mid .body ks s t) (hs : Filled s.steps) (ht : Filled t.steps) :
    P.Runs True .body Parser.bodyLine Parser.bodyLine s t
      fun a a' s' t' => a = a' ∧ P.Reached .body a s' t' := by
  apply (skipNewlines_runs h hs ht).bind
  intro _ _ s₁ t₁ _ _ hm
  apply (peek_zero hm.weaken).bind
  rintro a a' s₂ t₂ - - ⟨-, hseen⟩
  cases hseen with
  -- At the end of the text the subroutine ends as before the next `.sub`.
  | none _ hend _ hm => exact closedEarly_runs hm (hend ▸ outward_nil) _
  | @token u v htok _ hm =>
    dsimp only
    rw [← (Readable.like htok).kind]
    apply runs_change.bind
    rintro _ _ _ _ - - ⟨rfl, rfl⟩
    have hm : P.Mid .body [u.kind] ⟨s₂.tokens, _⟩ ⟨t₂.tokens, _⟩ :=
      ⟨Lawful.drop (Lawful.line htok hm.rel), hm.steps, hm.ahead⟩
    split
    next hd => exact endSub_runs hm (by rw [hd]; rfl)
    next hd =>
      rw [hd] at hm
      exact closedEarly_runs hm (outward_directive hm.ahead (.inr rfl)) _
    next hd =>
      apply (parameter_completes hm (by rw [hd]; rfl)).bind
      rintro _ _ s₃ t₃ - - ⟨-, hb⟩
      exact endStatement_runs hb.reached
    next =>
      apply (labelledStatement_runs hm rfl).bind
      rintro (_ | block) _ s₃ t₃ - - ⟨rfl, hb⟩
      · exact endStatement_runs hb.reached
      · exact .pure ⟨rfl, hb.reached⟩

end Pairing
end PirFrontend
