import PirFrontend.Proofs.Bodies

/-!
Two runs of a line anywhere in a program.
-/
namespace PirFrontend

open PirFrontend.Parser (Place Block)

namespace Pairing

variable {α : Type} {P : Pairing} [P.Lawful] {cr : Prop} {p : Place} {s t : Session}
  {k : TokenKind} {ks : List TokenKind}

/-! The first line of a subroutine -/

theorem subName_reads (h : P.Mid p ks s t) :
    P.Reads cr p Parser.subName Parser.subName s t (fun _ => []) fun _ _ _ => True := by
  apply (peekKind_zero h).then
  rintro next s₁ t₁ - - - hm -
  split
  · exact (expectString_reads hm).imp fun _ _ _ _ hm _ => ⟨hm.weaken, trivial⟩
  · exact (advanceText_reads hm rfl).imp fun _ _ _ _ hm _ => ⟨hm.weaken, trivial⟩
  · exact (advanceText_reads hm rfl).imp fun _ _ _ _ hm _ => ⟨hm.weaken, trivial⟩
  · exact unexpected_runs hm _ _

/-- What a flag enters in the open subroutine leaves its body as it was. -/
theorem changeSub_runs {f : Subroutine → Subroutine} (hf : ∀ s, (f s).SameBody s)
    (h : P.Mid .body ks s t) :
    P.Runs cr .body (Act.change (·.modifySub f)) (Act.change (·.modifySub f)) s t
      fun _ _ s' t' => P.Mid .body [] s' t' := by
  apply runs_change.imp
  rintro _ _ _ _ - - ⟨rfl, rfl⟩
  exact ⟨Lawful.modifySub h.rel hf, h.steps, trivial⟩

theorem subFlag_runs {u v : Token} (htok : P.tok u v) (word : FlagWord)
    (h : P.Mid .body ks s t) :
    P.Runs cr .body (Parser.subFlag u word) (Parser.subFlag v word) s t
      fun _ _ s' t' => P.Mid .body [] s' t' := by
  -- Every flag changes the head of the open subroutine only, whatever it reads for that.
  unfold Parser.subFlag
  split
  · apply (expectOperator_reads h .leftParen).bind
    intro _ s₁ t₁ _ _ _ hm _
    apply (subName_reads hm).bind
    intro outer s₂ t₂ _ _ _ hm _
    apply (expectOperator_reads hm .rightParen).bind
    intro _ s₃ t₃ _ _ _ hm _
    exact changeSub_runs (fun _ => ⟨rfl, rfl, rfl, rfl, rfl, rfl, rfl⟩) hm
  · apply (optionalParenString_reads h).bind
    intro name s₁ t₁ _ _ _ hm _
    exact changeSub_runs (fun _ => ⟨rfl, rfl, rfl, rfl, rfl, rfl, rfl⟩) hm
  · apply (parenString_reads h).bind
    intro id s₁ t₁ _ _ _ hm _
    exact changeSub_runs (fun _ => ⟨rfl, rfl, rfl, rfl, rfl, rfl, rfl⟩) hm
  · apply (parenString_reads h).bind
    intro name s₁ t₁ _ _ _ hm _
    exact changeSub_runs (fun _ => ⟨rfl, rfl, rfl, rfl, rfl, rfl, rfl⟩) hm
  · split
    · exact changeSub_runs (fun _ => ⟨rfl, rfl, rfl, rfl, rfl, rfl, rfl⟩) h
    · exact unexpectedToken_runs h htok _ _

theorem nextSubFlag_runs (h : P.Mid .body [] s t) :
    P.Runs cr .body Parser.nextSubFlag Parser.nextSubFlag s t fun go go' s' t' =>
      go = go' ∧ P.Mid .body [] s' t' ∧ (go = true → Shorter s t s' t') := by
  apply (peekKind_zero h).bind
  rintro next s₁ t₁ hs ht - hm -
  split
  next word =>
    apply (advance_runs hm rfl).bind
    intro u v s₂ t₂ _ _ htake
    apply (subFlag_runs htake.tok word htake.mid).bind
    intro _ _ s₃ t₃ hs₃ ht₃ hm
    exact .pure ⟨rfl, hm, fun _ => (htake.shorter.mono hs ht).follows hs₃ ht₃⟩
  next => exact .pure ⟨rfl, hm.weaken, nofun⟩

theorem subFlags_runs (h : P.Mid .body ks s t) :
    P.Runs cr .body Parser.subFlags Parser.subFlags s t fun _ _ s' t' => P.Mid .body [] s' t' :=
  Runs.repeatWhile (fun s t => P.Mid .body [] s t) (fun _ _ hm => nextSubFlag_runs hm) h.weaken

theorem flags_completes (h : P.Mid .body ks s t) :
    P.Completes cr .body (do Parser.subFlags; Parser.endOfLine) s t := by
  apply (subFlags_runs h).bind
  intro _ _ s₁ t₁ _ _ hm
  exact (endOfLine_runs hm).imp fun _ _ _ _ _ _ ⟨_, hb⟩ => ⟨rfl, hb⟩

theorem run_lift_mended_bind {β : Type} (x : Mended α) (f : α → Mended β) (s : Session) :
    (liftM (x >>= f) : Parser β).run s =
      ((liftM x : Parser α) >>= fun a => (liftM (f a) : Parser β)).run s := by
  rw [run_bind, run_lift_mended, run_lift_mended, run_bind]
  generalize x.run s = r
  obtain ⟨a | a, u⟩ := r <;> rfl

/-- Behind its first line a subroutine is open, whatever stood there. -/
theorem subHeader_runs (h : P.Mid .top ks s t) :
    P.Runs cr .top (liftM Parser.subHeader) (liftM Parser.subHeader) s t
      fun _ _ s' t' => P.Between .body s' t' := by
  have hname : P.Runs False .top (some <$> Parser.subName) (some <$> Parser.subName) s t
      fun a a' s' t' => a = a' ∧ P.Mid .top [] s' t' ∧ ∃ name, a = some name ∧ True :=
    Runs.imp ((subName_reads h).map some) fun _ _ _ _ _ _ ⟨ha, _, hm, hsome⟩ => ⟨ha, hm, hsome⟩
  unfold Runs Parser.subHeader
  rw [run_lift_mended_bind, run_lift_mended_bind]
  -- A subroutine is opened even where its name is broken, so both ways lead into a body.
  apply (attempt_runs hname).bind
  rintro _ _ s₁ t₁ - - (⟨rfl, hm, name, rfl, -⟩ | ⟨rfl, rfl, hb⟩)
  · unfold Runs
    rw [run_lift_mended_bind, run_lift_mended_bind]
    apply (runs_change (f := fun b => (b.openSub name).2) (g := fun b => (b.openSub name).2)).bind
    rintro _ _ _ _ - - ⟨rfl, rfl⟩
    have hm : P.Mid .body [] ⟨s₁.tokens, _⟩ ⟨t₁.tokens, _⟩ :=
      ⟨Lawful.openSub name hm.rel, hm.steps, trivial⟩
    apply (attempt_runs (flags_completes hm)).imp
    rintro _ _ s₂ t₂ - - (⟨-, hb⟩ | ⟨-, -, hb⟩)
    · exact hb
    · exact hb
  · apply (runs_change (f := fun b => (b.openSub "").2) (g := fun b => (b.openSub "").2)).imp
    rintro _ _ _ _ - - ⟨rfl, rfl⟩
    exact ⟨Readable.passed (Lawful.openSub "" (Lawful.next hb.past)), hb.steps⟩

/-! Items -/

/-- What an item enters in the unit leaves its subroutines and constants as they were. -/
theorem completes_changeUnit {f : CompilationUnit → CompilationUnit}
    (hf : CompilationUnit.KeepsSubs f) (h : P.Mid .top ks s t) :
    P.Completes cr .top
      (do Parser.endOfLine; Act.change fun b => { b with unit := f b.unit }) s t := by
  apply (endOfLine_runs h).bind
  rintro _ _ s' t' - - ⟨-, hb⟩
  apply runs_change.imp
  rintro _ _ _ _ - - ⟨rfl, rfl⟩
  exact ⟨rfl, Readable.passed (Lawful.modifyUnit (Lawful.next hb.past) hf), hb.steps⟩

theorem setNamespace_completes (names : List String) (h : P.Mid .top ks s t) :
    P.Completes cr .top (do
      Parser.endOfLine
      Act.change (·.setNamespace (Key.ofList? (names.map .string)))) s t :=
  completes_changeUnit (f := fun u => { u with namespaceKey := Key.ofList? (names.map .string) })
    ⟨fun _ => rfl, fun _ => rfl, fun _ => rfl, .inr ⟨names, fun _ => rfl⟩⟩ h

theorem namespaceItem_completes (h : P.Mid .top (k :: ks) s t) (hk : k.isNewline = false) :
    P.Completes cr .top Parser.namespaceItem s t := by
  apply (advance_runs h hk).bind
  intro _ _ s₁ t₁ _ _ ht
  apply (eatOperator_reads ht.mid .leftBracket).bind
  rintro (_ | _) s₂ t₂ - - - hm -
  · exact setNamespace_completes [] hm
  · have hclose (entries : List String) (s t) (hm : P.Mid .top [] s t) : P.Completes cr .top (do
        Parser.expectOperator .rightBracket
        Parser.endOfLine
        Act.change (·.setNamespace (Key.ofList? (entries.map .string)))) s t := by
      apply (expectOperator_reads hm .rightBracket).bind
      intro _ s t _ _ _ hm _
      exact setNamespace_completes _ hm
    apply (atOperator_reads hm.weaken (Nat.zero_le _) (by simp) (Nat.zero_le _)
      .rightBracket).bind
    rintro (_ | _) s₃ t₃ - - - hm -
    · refine (separated_reads (T := fun _ _ => True) (fun _ _ _ _ _ => trivial) (fun s t h => ?_)
        hm).bind fun entries s₄ t₄ _ _ _ hm _ => ?_
      · exact (expectString_reads h).imp fun _ _ _ _ hm _ => ⟨hm, trivial⟩
      · exact hclose entries s₄ t₄ hm
    · exact hclose [] s₃ t₃ hm

theorem hllItem_completes (h : P.Mid .top (k :: ks) s t) (hk : k.isNewline = false) :
    P.Completes cr .top Parser.hllItem s t := by
  apply (advance_runs h hk).bind
  intro _ _ s₁ t₁ _ _ ht
  apply (expectString_reads ht.mid).bind
  intro name s₂ t₂ _ _ _ hm _
  exact completes_changeUnit (f := fun u => { u with hll := some name })
    ⟨fun _ => rfl, fun _ => rfl, fun _ => rfl, .inl fun _ => rfl⟩ hm

theorem hllMapItem_completes (h : P.Mid .top (k :: ks) s t) (hk : k.isNewline = false) :
    P.Completes cr .top Parser.hllMapItem s t := by
  apply (advance_runs h hk).bind
  intro _ _ s₁ t₁ _ _ ht
  apply (expectString_reads ht.mid).bind
  intro core s₂ t₂ _ _ _ hm _
  apply (expectOperator_reads hm .assign).bind
  intro _ s₃ t₃ _ _ _ hm _
  apply (expectString_reads hm).bind
  intro hll s₄ t₄ _ _ _ hm _
  exact completes_changeUnit (f := fun u => { u with hllMap := u.hllMap.insert core hll })
    ⟨fun _ => rfl, fun _ => rfl, fun _ => rfl, .inl fun _ => rfl⟩ hm

theorem loadlibItem_completes (h : P.Mid .top (k :: ks) s t) (hk : k.isNewline = false) :
    P.Completes cr .top Parser.loadlibItem s t := by
  apply (advance_runs h hk).bind
  intro _ _ s₁ t₁ _ _ ht
  apply (expectString_reads ht.mid).bind
  intro name s₂ t₂ _ _ _ hm _
  exact completes_changeUnit (f := fun u => { u with libraries := u.libraries ++ [name] })
    ⟨fun _ => rfl, fun _ => rfl, fun _ => rfl, .inl fun _ => rfl⟩ hm

theorem itemDirective_completes (d : Directive) (h : P.Mid .top (.directive d :: ks) s t) :
    P.Completes cr .top (Parser.itemDirective d) s t := by
  unfold Parser.itemDirective
  split
  · exact constantDeclaration_completes h rfl false
  · exact constantDeclaration_completes h rfl true
  · exact namespaceItem_completes h rfl
  · exact hllItem_completes h rfl
  · exact hllMapItem_completes h rfl
  · exact loadlibItem_completes h rfl
  · exact unexpected_runs h _ _

/-! Lines -/

/-- Where two runs stand behind a line: at the place of the next line or at the end of the text. -/
def Passed (P : Pairing) (p : Place) : Option Place → Session → Session → Prop
  | some q, s, t => P.Reached p q s t
  | none, s, t => P.rel .top s.builder t.builder ∧ P.mid [] [] ∧ s.steps = [] ∧ t.steps = []

theorem item_runs (h : P.Mid .top ks s t) (hs : Filled s.steps) (ht : Filled t.steps) :
    P.Runs cr .top Parser.item Parser.item s t
      fun a a' s' t' => a = a' ∧ P.Passed .top a s' t' := by
  apply (skipNewlines_runs h hs ht).bind
  intro _ _ s₁ t₁ _ _ hm
  apply (peek_zero hm.weaken).bind
  rintro a a' s₂ t₂ - - ⟨-, hseen⟩
  cases hseen with
  | none _ hs ht hm =>
    -- Outside of subroutines the text may be over.
    have hnil := hm.steps
    rw [hs, ht] at hnil
    exact .pure ⟨rfl, hm.rel, hnil, hs, ht⟩
  | @token u v htok _ hm =>
    dsimp only
    rw [← (Readable.like htok).kind]
    apply runs_change.bind
    rintro _ _ _ _ - - ⟨rfl, rfl⟩
    have hm : P.Mid .top [u.kind] ⟨s₂.tokens, _⟩ ⟨t₂.tokens, _⟩ :=
      ⟨Lawful.drop (Lawful.line htok hm.rel), hm.steps, hm.ahead⟩
    split
    next hd =>
      apply (advance_runs hm (by rw [hd]; rfl)).bind
      intro _ _ s₃ t₃ _ _ ht
      apply (subHeader_runs ht.mid).bind
      intro _ _ s₄ t₄ _ _ hb
      exact .pure ⟨rfl, hb.reached⟩
    next d _ hd =>
      rw [hd] at hm
      apply (itemDirective_completes d hm).bind
      rintro _ _ s₃ t₃ - - ⟨-, hb⟩
      exact .pure ⟨rfl, hb.reached⟩
    next => exact unexpected_runs hm _ _

/-- Two runs of a line that is no empty one. Only the statements of a body look across its end. -/
theorem line_runs (h : P.Mid p ks s t) (hs : Filled s.steps) (ht : Filled t.steps) :
    P.Runs (p = .body) p (Parser.line p) (Parser.line p) s t
      fun a a' s' t' => a = a' ∧ P.Passed p a s' t' := by
  have hsome {cr : Prop} {q : Place} {x : Parser Place} {s t} (hx : P.Runs cr p x x s t
      fun a a' s' t' => a = a' ∧ P.Reached q a s' t') : P.Runs cr p (some <$> x) (some <$> x) s t
      fun a a' s' t' => a = a' ∧ P.Passed q a s' t' := by
    apply Runs.bind hx
    rintro a _ s' t' - - ⟨rfl, hr⟩
    exact .pure ⟨rfl, hr⟩
  cases p with
  | top => exact item_runs h hs ht
  | body => exact hsome ((bodyLine_runs h hs ht).cross fun _ => rfl)
  | block b =>
    apply (blockLine_runs b h hs ht).bind
    rintro (_ | _) _ s₁ t₁ - - ⟨rfl, hr⟩
    · exact hsome (endStatement_runs hr)
    · exact .pure ⟨rfl, hr⟩

end Pairing
end PirFrontend
