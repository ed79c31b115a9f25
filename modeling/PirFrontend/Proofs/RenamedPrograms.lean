import PirFrontend.Grammar.Program
import PirFrontend.Proofs.RenamedStatements

/-!
Programs under other names, line by line.
-/
namespace PirFrontend

open HasClean
open PirFrontend.Parser (Block Place)

namespace Respelling

variable {ρ : Respelling} {K : List TokenKind → Prop}

/-! Subroutines -/

/-- A subroutine keeps its name, unless that is the hidden one. -/
theorem subName_reads :
    Carries (ρ.At false K) Parser.subName Parser.subName (Spared ρ.hidden)
      fun _ => ρ.At false Anything := by
  refine peekKind_bind (by decide) (fun _ _ => rfl) fun k => ?_
  obtain _ | k := k
  · exact unexpected _
  cases k with
  | string s => exact expectString_reads.relate fun a b hab => hab ▸ .refl _ a
  | identifier | keyword => exact advanceWord (word_ahead rfl)
  | _ => exact unexpected _

theorem subFlag_reads (t u : Token) (word : FlagWord) :
    ρ.Reads Anything (Parser.subFlag t word) (Parser.subFlag u word) id := by
  have hflag (f : SubFlag) : ρ.Reads Anything
      (Act.change (·.setSubFlags (.single f)) : Parser Unit)
      (Act.change (·.setSubFlags (.single f))) id :=
    change (fun _ => rfl) fun _ _ h => h.modifySub fun s u hsub =>
      { hsub with flags := by rw [hsub.flags] }
  cases word with
  | outer =>
    exact (expectOperator_reads .leftParen).bind fun _ => subName_reads.bindRel fun a b hab =>
      (expectOperator_reads .rightParen).bind fun _ => change (fun _ => rfl) fun _ _ h =>
        h.modifySub fun s u hsub => { hsub with outer := Spared.some hab }
  | vtable =>
    refine optionalParenString_reads.bind fun name => change (fun _ => rfl) fun _ _ h =>
      h.modifySub fun s u hsub => { hsub with vtable := fun hne => ?_ }
    have hname : u.name = s.name := hsub.name hne
    rw [hname]
    rfl
  | lexid =>
    exact parenString_reads.bind fun id => change (fun _ => rfl) fun _ _ h =>
      h.modifySub fun s u hsub => { hsub with lexid := rfl }
  | instanceof =>
    exact parenString_reads.bind fun name => change (fun _ => rfl) fun _ _ h =>
      h.modifySub fun s u hsub => { hsub with instanceof := rfl }
  | anon | init | load | main | method | lex | multi | postcomp | immediate => exact hflag _
  | _ => exact .raised _ _

theorem nextSubFlag_reads : ρ.Reads K Parser.nextSubFlag Parser.nextSubFlag id := by
  refine peekKind_bind (by decide) (fun _ _ => rfl) fun k => ?_
  obtain _ | k := k
  · exact .pure rfl fun _ _ h => h.weaken
  cases k with
  | flag word =>
    exact (advance_known (known_ahead rfl)).bindRel fun t u _ => (subFlag_reads t u word).bind
      fun _ => .pure rfl fun _ _ => id
  | _ => exact .pure rfl fun _ _ h => h.weaken

theorem subFlags_reads : ρ.Reads Anything Parser.subFlags Parser.subFlags id :=
  repeatWhile_reads Parser.size_nextSubFlag nextSubFlag_reads

theorem closed {ε : Type} :
    Carries (ρ.At false K) (Act.change (·.closeSub.2) : Act ε Unit) (Act.change (·.closeSub.2))
      (Maps id) fun _ => ρ.At false K :=
  change (fun b => by unfold Builder.closeSub; split <;> rfl) fun _ _ h => h.closeSub

theorem endSub_reads (hK : ∀ k L, K (k :: L) → k.declares = false) :
    ρ.Reads K Parser.endSub Parser.endSub id :=
  skipped hK <| closed.bind fun _ => (mended (attempt endOfLine_reads)).bind fun _ =>
    .pure rfl fun _ _ => id

theorem endStatement_reads : ρ.Reads Anything Parser.endStatement Parser.endStatement id := by
  have hdrop : Carries (ρ.At false Anything) (Act.change Builder.dropInstruction : Parser Unit)
      (Act.change Builder.dropInstruction) (Maps id) fun _ => ρ.At false Anything :=
    change (fun _ => rfl) fun _ _ h => h.dropInstruction
  exact hdrop.bind fun _ => .pure rfl fun _ _ => id

instance {α : Type} (R : α → α → Prop) [Total R] : Total (Option.Rel R) where
  total
    | none => ⟨none, .none⟩
    | some a =>
      have ⟨b, hab⟩ := Total.total (R := R) a
      ⟨some b, .some hab⟩

theorem opened {name name' : String} (hname : Spared ρ.hidden name name') :
    Carries (ρ.At false K) (Act.change fun b => (b.openSub name).2 : Mended Unit)
      (Act.change fun b => (b.openSub name').2) (Maps id) fun _ => ρ.At false K :=
  change (fun b => by unfold Builder.openSub Builder.closeSub; split <;> rfl)
    fun _ _ h => h.openSub hname

theorem subHeader_reads : ρ.Reads K Parser.subHeader Parser.subHeader id := by
  have hname : Carries (ρ.At false K) (some <$> Parser.subName) (some <$> Parser.subName)
      (Option.Rel (Spared ρ.hidden)) fun _ => ρ.At false Anything :=
    subName_reads.map some (fun _ _ => .some) fun _ _ _ => id
  refine (attempt hname).bindRel fun a b hab => ?_
  cases hab with
  | none => exact opened (.refl _ _)
  | some hab =>
    refine (opened hab).bind fun _ => attempt ?_
    exact subFlags_reads.bind fun _ => endOfLine_reads

/-! Items -/

theorem Builders.changeUnit {b c : Builder} {u w : CompilationUnit} (h : ρ.Builders b c)
    (hunit : ρ.Units u w) : ρ.Builders { b with unit := u } { c with unit := w } :=
  { h with unit := hunit }

section

variable (hK : ∀ k L, K (k :: L) → k.declares = false)
include hK

theorem namespaceItem_reads : ρ.Reads K Parser.namespaceItem Parser.namespaceItem id := by
  have hset (entries : List String) : ρ.Reads Anything
      (do
        Parser.endOfLine
        Act.change (·.setNamespace (Key.ofList? (entries.map .string))) : Parser Unit)
      (do
        Parser.endOfLine
        Act.change (·.setNamespace (Key.ofList? (entries.map .string)))) id :=
    endOfLine_reads.bind fun _ => change (fun _ => rfl) fun _ _ h =>
      h.changeUnit { h.unit with namespaceKey := rfl }
  have hclosed (entries : List String) : ρ.Reads Anything
      (do
        Parser.expectOperator .rightBracket
        Parser.endOfLine
        Act.change (·.setNamespace (Key.ofList? (entries.map .string))) : Parser Unit)
      (do
        Parser.expectOperator .rightBracket
        Parser.endOfLine
        Act.change (·.setNamespace (Key.ofList? (entries.map .string)))) id :=
    (expectOperator_reads .rightBracket).bind fun _ => hset entries
  refine skipped hK <| (eatOperator_reads .leftBracket).bind fun b => ?_
  cases b with
  | false => exact hset []
  | true =>
    refine (atOperator_reads (by decide) .rightBracket).bind fun b => ?_
    cases b with
    | true => exact hclosed []
    | false =>
      refine (separated_reads .semicolon Parser.expectString_shrinks expectString_reads).bind
        fun entries => ?_
      simpa using hclosed entries

theorem hllItem_reads : ρ.Reads K Parser.hllItem Parser.hllItem id :=
  skipped hK <| expectString_reads.bind fun _ => endOfLine_reads.bind fun _ =>
    change (fun _ => rfl) fun _ _ h => h.changeUnit { h.unit with hll := rfl }

theorem hllMapItem_reads : ρ.Reads K Parser.hllMapItem Parser.hllMapItem id :=
  skipped hK <| expectString_reads.bind fun core => (expectOperator_reads .assign).bind fun _ =>
    expectString_reads.bind fun hll => endOfLine_reads.bind fun _ => change (fun _ => rfl)
      fun _ _ h => h.changeUnit { h.unit with hllMap := by rw [h.unit.hllMap]; rfl }

theorem loadlibItem_reads : ρ.Reads K Parser.loadlibItem Parser.loadlibItem id :=
  skipped hK <| expectString_reads.bind fun name => endOfLine_reads.bind fun _ =>
    change (fun _ => rfl) fun _ _ h =>
      h.changeUnit { h.unit with libraries := by rw [h.unit.libraries]; rfl }

end

theorem itemDirective_reads (d : Directive) (hK : ∀ k L, K (k :: L) → k = .directive d) :
    ρ.Reads K (Parser.itemDirective d) (Parser.itemDirective d) id := by
  cases d with
  | const => exact constantDeclaration_reads false (declares_directive hK rfl)
  | globalConst => exact constantDeclaration_reads true (declares_directive hK rfl)
  | namespaceDecl => exact namespaceItem_reads (declares_directive hK rfl)
  | hll => exact hllItem_reads (declares_directive hK rfl)
  | hllMap => exact hllMapItem_reads (declares_directive hK rfl)
  | loadlib => exact loadlibItem_reads (declares_directive hK rfl)
  | _ => exact unexpected _

/-! Lines -/

/-- A line begins where both have the next token, or neither has one. -/
theorem peek_bind {α : Type} {f g : Option Token → Parser α} {R : α → α → Prop}
    {Q : α → Session → Session → Prop} (hnone : Carries (ρ.At false Anything) (f none) (g none) R Q)
    (hsome : ∀ t u, t.Admits u →
      Carries (ρ.At false fun L => L[0]? = some t.kind) (f (some t)) (g (some u)) R Q) :
    Carries (ρ.At false Anything) (do f (← TokenStream.peek 0))
      (do g (← TokenStream.peek 0)) R Q := by
  refine (peek (by decide)).bindRel fun a b hab => ?_
  cases a with
  | none =>
    cases b with
    | none => exact hnone.before fun _ _ h => h.weaken
    | some u => obtain h | ⟨h, -⟩ := hab <;> cases h
  | some t =>
    cases b with
    | none => obtain h | ⟨-, k, -, h⟩ := hab <;> cases h
    | some u => exact (hsome t u hab).before fun _ _ h => h.mono fun _ hL => hL.2

theorem lined (f g : Builder → Builder) (hf : ∀ b, (f b).diagnostics = b.diagnostics)
    (h : ∀ b c, ρ.Builders b c → ρ.Builders (f b) (g c)) {α : Type} {x y : Parser α}
    {R : α → α → Prop} {Q : α → Session → Session → Prop} (hx : Carries (ρ.At false K) x y R Q) :
    Carries (ρ.At false K) (do Act.change f; x) (do Act.change g; y) R Q :=
  (change hf h).bind fun _ => hx

theorem bodyLine_reads : ρ.Reads Anything Parser.bodyLine Parser.bodyLine id := by
  have htop : ρ.Reads Anything (do Act.change (·.closeSub.2); pure .top : Parser Place)
      (do Act.change (·.closeSub.2); pure .top) id :=
    closed.bind fun _ => .pure rfl fun _ _ => id
  -- Whatever the line begins with that is no directive of the body, it is a statement.
  have hstatement {K : List TokenKind → Prop} {f : Option Block → Parser Place}
      (hnone : f none = Parser.endStatement)
      (hsome : ∀ block, f (some block) = pure (.block block)) :
      ρ.Reads K (Parser.labelledStatement >>= f) (Parser.labelledStatement >>= f) id :=
    labelledStatement_reads.bind fun block => by
      cases block with
      | none =>
        rw [id, hnone]
        exact endStatement_reads
      | some block =>
        rw [id, hsome]
        exact .pure rfl fun _ _ => id
  refine skipNewlines_reads.bind fun _ => peek_bind (malformed _ htop.clean) fun t u htu => ?_
  refine lined (·.beginStatement t.line) (·.beginStatement u.line) (fun _ => rfl)
    (fun _ _ h => h.beginStatement _ _) ?_
  obtain h | ⟨h, k, -, h'⟩ := htu
  · rw [Option.some.inj h]
    generalize t.kind = k
    cases k with
    | directive d =>
      cases d with
      | endSub => exact endSub_reads fun k L hk => Option.some.inj hk ▸ rfl
      | sub => exact malformed _ htop.clean
      | param =>
        have hparam : ρ.Reads (fun L => L[0]? = some (.directive .param)) Parser.parameter
            Parser.parameter id := parameter_reads fun k L hk => Option.some.inj hk ▸ rfl
        exact hparam.bind fun _ => endStatement_reads
      | _ => exact hstatement rfl fun _ => rfl
    | _ => exact hstatement rfl fun _ => rfl
  · rw [Option.some.inj h, Option.some.inj h']
    exact hstatement rfl fun _ => rfl

theorem blockLine_reads (block : Block) :
    ρ.Reads Anything (Parser.blockLine block) (Parser.blockLine block) id := by
  refine skipNewlines_reads.bind fun _ => peek_bind (malformed _ ?_) fun t u htu => ?_
  · intro s s' a hrun hclean
    cases hrun
    exact hclean
  refine lined (·.setLine t.line) (·.setLine u.line) (fun _ => rfl) (fun _ _ h => { h with }) ?_
  obtain h | ⟨h, k, -, h'⟩ := htu
  · rw [Option.some.inj h]
    generalize t.kind = k
    cases k with
    | directive d => exact blockDirective_reads block d fun k L hk => Option.some.inj hk
    | _ => exact unexpected _
  · rw [Option.some.inj h]
    exact unexpected _

theorem item_reads : ρ.Reads Anything Parser.item Parser.item id := by
  refine skipNewlines_reads.bind fun _ => peek_bind (.pure rfl fun _ _ => id) fun t u htu => ?_
  refine lined (·.beginStatement t.line) (·.beginStatement u.line) (fun _ => rfl)
    (fun _ _ h => h.beginStatement _ _) ?_
  obtain h | ⟨h, k, -, h'⟩ := htu
  · rw [Option.some.inj h]
    generalize t.kind = k
    cases k with
    | directive d =>
      have hitem : ρ.Reads (fun L => L[0]? = some (.directive d))
          (do Parser.itemDirective d; pure (some .top) : Parser (Option Place))
          (do Parser.itemDirective d; pure (some .top)) id :=
        (itemDirective_reads d fun k L hk => Option.some.inj hk).bind fun _ =>
          .pure rfl fun _ _ => id
      cases d with
      | sub =>
        exact skipped (fun k L hk => Option.some.inj hk ▸ rfl) <|
          (mended subHeader_reads).bind fun _ => .pure rfl fun _ _ => id
      | _ => exact hitem
    | _ => exact unexpected _
  · rw [Option.some.inj h]
    exact unexpected _

theorem line_reads (p : Place) : ρ.Reads Anything (Parser.line p) (Parser.line p) id := by
  cases p with
  | top => exact item_reads
  | body => exact bodyLine_reads.map some (fun _ _ h => congrArg some h) fun _ _ _ => id
  | block block =>
    refine (blockLine_reads block).bind fun more => ?_
    cases more with
    | true => exact .pure rfl fun _ _ => id
    | false => exact endStatement_reads.map some (fun _ _ h => congrArg some h) fun _ _ _ => id

/-- A whole program is read under other names as it was. -/
theorem linesFrom_reads (p : Place) :
    ρ.Reads Anything (Parser.linesFrom p) (Parser.linesFrom p) id := by
  have hline (p : Place) : ρ.Reads Anything (Mended.attempt (Parser.line p) (some p))
      (Mended.attempt (Parser.line p) (some p)) id := attempt (line_reads p)
  -- The induction is on the lines that are read without a problem.
  have hlines (s : Session) : ∀ {s' a}, (Parser.linesFrom p).run s = (.ok a, s') → Clean s' →
      Clean s ∧ ∀ t, ρ.At false Anything s t → ∃ b t', (Parser.linesFrom p).run t = (.ok b, t') ∧
        Maps id a b ∧ ρ.At false Anything s' t' := by
    induction p, s using lines_induction with
    | line p s ih =>
      intro s' a hrun hclean
      rw [run_linesFrom] at hrun
      cases hr : (Mended.attempt (Parser.line p) (some p)).run s with
      | mk r s₁ =>
        rw [hr] at hrun
        obtain f | _ | q := r
        · cases hrun
        · cases hrun
          refine ⟨(hline p).clean hr hclean, fun t hat => ?_⟩
          obtain ⟨_, t', ht, rfl, hat'⟩ := (hline p).carry hat hr hclean
          refine ⟨(), t', ?_, rfl, hat'⟩
          rw [run_linesFrom, ht]
          rfl
        · obtain ⟨hclean₁, hcarry⟩ := ih q s₁ hr hrun hclean
          refine ⟨(hline p).clean hr hclean₁, fun t hat => ?_⟩
          obtain ⟨_, t₁, ht, rfl, hat₁⟩ := (hline p).carry hat hr hclean₁
          rw [run_linesFrom, ht]
          exact hcarry t₁ hat₁
  exact ⟨fun hrun hclean => (hlines _ hrun hclean).1,
    fun hat hrun hclean => (hlines _ hrun hclean).2 _ hat⟩

end Respelling
end PirFrontend
