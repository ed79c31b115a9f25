import PirFrontend.Proofs.Pairing
import PirFrontend.Proofs.Tables

/-!
Invariants of one run. An invariant of the code that is built needs to be checked for the few
actions that change the code; all other actions keep it. A run next to itself is a pairing.
-/
namespace PirFrontend

open PirFrontend.Parser (Place Block)

/-- What a subroutine is made of, without its first line and what its names stand for. -/
structure Subroutine.Content where
  namespaceKey : Option Key
  parameters : List Parameter
  lexicals : List Lexical
  statements : List Statement
  labels : Table Nat

/-- The content of a subroutine. -/
def Subroutine.content (s : Subroutine) : Content :=
  ⟨s.namespaceKey, s.parameters, s.lexicals, s.statements, s.labels⟩

/-- A later subroutine has the same content, and more names at most. -/
structure Subroutine.Declares (s s' : Subroutine) : Prop where
  content : s'.content = s.content
  constants : s.constants.Within s'.constants
  symbols : s.symbols.Within s'.symbols

theorem Subroutine.Declares.refl (s : Subroutine) : s.Declares s := ⟨rfl, .refl _, .refl _⟩

namespace Builder

/-- A later builder holds the same subroutines, up to names that were declared since, and the same
open block. What was reported stays reported. -/
structure SameContent (b b' : Builder) : Prop where
  closed : b'.unit.subroutines = b.unit.subroutines
  namespaceKey : b'.unit.namespaceKey = b.unit.namespaceKey
  constants : b.unit.constants.Within b'.unit.constants
  globalConstants : b.unit.globalConstants.Within b'.unit.globalConstants
  current : Option.Rel Subroutine.Declares b.current b'.current
  pendingCall : b'.pendingCall = b.pendingCall
  diagnostics : b.diagnostics <+: b'.diagnostics

/-- Two builders hold the same code: the statements that were emitted, and the open block. -/
structure SameCode (b b' : Builder) : Prop where
  closed : b'.unit.subroutines = b.unit.subroutines
  current : b'.current.map (·.statements) = b.current.map (·.statements)
  pendingCall : b'.pendingCall = b.pendingCall

variable {b b' : Builder}

theorem SameContent.of_eq (hunit : b'.unit = b.unit) (hcurrent : b'.current = b.current)
    (hcall : b'.pendingCall = b.pendingCall) (hdiagnostics : b.diagnostics <+: b'.diagnostics) :
    b.SameContent b' := by
  refine ⟨by rw [hunit], by rw [hunit], hunit ▸ .refl _, hunit ▸ .refl _, ?_, hcall, hdiagnostics⟩
  rw [hcurrent]
  cases b.current with
  | none => exact .none
  | some s => exact .some (.refl s)

theorem SameContent.modifySub (b : Builder) {f : Subroutine → Subroutine}
    (hf : ∀ s, b.current = some s → s.Declares (f s)) : b.SameContent (b.modifySub f) := by
  refine ⟨rfl, rfl, .refl _, .refl _, ?_, rfl, List.prefix_rfl⟩
  cases h : b.current with
  | none =>
    simp only [Builder.modifySub, h, Option.map_none]
    exact .none
  | some s =>
    simp only [Builder.modifySub, h, Option.map_some]
    exact .some (hf s h)

/-- The open subroutine of the later builder is that of the earlier one, with more names. -/
theorem SameContent.exists_current (h : b.SameContent b') {s' : Subroutine}
    (hs' : b'.current = some s') : ∃ s, b.current = some s ∧ s.Declares s' := by
  have hcurrent := h.current
  rw [hs'] at hcurrent
  generalize b.current = c at hcurrent ⊢
  cases hcurrent with
  | some hd => exact ⟨_, rfl, hd⟩

theorem SameContent.sameCode (h : b.SameContent b') : b.SameCode b' := by
  refine ⟨h.closed, ?_, h.pendingCall⟩
  have hcurrent := h.current
  generalize b.current = c at hcurrent ⊢
  generalize b'.current = c' at hcurrent ⊢
  cases hcurrent with
  | none => rfl
  | some hd => exact congrArg (some ∘ Subroutine.Content.statements) hd.content

namespace SameCode

theorem modifySub (b : Builder) {f : Subroutine → Subroutine}
    (hf : ∀ s, (f s).statements = s.statements) : b.SameCode (b.modifySub f) := by
  refine ⟨rfl, ?_, rfl⟩
  cases h : b.current <;> simp [Builder.modifySub, h, hf]

end SameCode
end Builder

namespace Build

variable {α β : Type} {b : Builder}

theorem report_sameContent (kind : DiagnosticKind) (message : String) :
    (report kind message).Leaves b b.SameContent :=
  .report fun _ => .of_eq rfl rfl rfl (List.prefix_append _ _)

theorem mend_sameContent (e : ParseError) : (mend e).Leaves b b.SameContent := by
  intro a b' h
  rw [run_mend] at h
  have hs := report_sameContent _ _ a b' h
  exact ⟨hs.closed, hs.namespaceKey, hs.constants, hs.globalConstants, hs.current, hs.pendingCall,
    hs.diagnostics⟩

theorem declareConstant_sameContent (name : String) (value : ConstantValue) :
    (declareConstant name value).Leaves b b.SameContent := by
  apply Leaves.get
  dsimp only
  split
  next s hs =>
    split
    · exact report_sameContent _ _
    next hnew =>
      refine .set (.modifySub b fun s' hs' => ?_)
      obtain rfl := Option.some.inj (hs.symm.trans hs')
      exact ⟨rfl, Table.within_insert (by simpa using hnew) _, .refl _⟩
  next hs =>
    split
    · exact report_sameContent _ _
    next hnew =>
      refine .set ⟨rfl, rfl, Table.within_insert (by simpa using hnew) _, .refl _, ?_, rfl,
        List.prefix_rfl⟩
      rw [hs]
      exact .none

theorem declareGlobalConstant_sameContent (name : String) (value : ConstantValue) :
    (declareGlobalConstant name value).Leaves b b.SameContent := by
  apply Leaves.get
  dsimp only
  split
  · exact report_sameContent _ _
  next hnew =>
    have hsame := Builder.SameContent.of_eq (b := b) rfl rfl rfl List.prefix_rfl
    exact .set ⟨rfl, rfl, .refl _, Table.within_insert (by simpa using hnew) _, hsame.current, rfl,
      List.prefix_rfl⟩

/-- Declaring a symbol either only reports something, or attaches what the symbol brings. -/
theorem declareSymbol_leaves (name : String) (type : ValueType) (uniqueReg : Bool)
    {attach : Symbol → Subroutine → Subroutine} {Q : Builder → Prop}
    (hreport : ∀ b', b.SameContent b' → Q b')
    (hattach : ∀ s symbol symbols, b.current = some s →
      s.symbols.declare name type uniqueReg = .ok (symbol, symbols) →
      Q (b.modifySub fun s => attach symbol { s with symbols })) :
    (declareSymbol name type uniqueReg attach).Leaves b Q := by
  apply Leaves.currentSub
  intro s hs
  split
  next symbol symbols hok => exact .modify (hattach s symbol symbols hs hok)
  next =>
    intro a b' hrun
    exact hreport b' (report_sameContent _ _ a b' hrun)

theorem setLabel_leaves_of (name : String) {Q : Builder → Prop}
    (hreport : ∀ b', b.SameContent b' → Q b')
    (hlabel : Q { b.modifySub fun s =>
        { s with labels := s.labels.insert name s.statements.length } with
      pendingLabel := some name }) : (setLabel name).Leaves b Q := by
  refine Leaves.bind (currentSub_leaves (Q := (b = ·)) rfl) ?_
  intro s _ rfl
  split
  · intro a b' hrun
    exact hreport b' (report_sameContent _ _ a b' hrun)
  · exact .modify hlabel

theorem bindLexical_leaves (name : String) (t : Target) {Q : Builder → Prop}
    (h : Q (b.modifySub fun s =>
      { s with lexicals := s.lexicals ++ [⟨name, { t with lexName := some name }⟩] })) :
    (bindLexical name t).Leaves b Q := by
  refine Leaves.bind (currentSub_leaves (Q := (b = ·)) rfl) ?_
  intro s _ rfl
  exact .modify h

end Build

/-- A property of builders, for each place, that statements, blocks and subroutines keep. -/
class Builder.Emitted (inv : Place → Builder → Prop) : Prop where
  emit {b s} : inv .body b → b.MadeStatement s → (Build.emit s).Leaves b (inv .body)
  beginBlock {b} (k : Block) : inv .body b → inv (.block k) (k.beginning b)
  leaveBlock {b k} : inv (.block k) b → inv .body b
  changeCall {b k} {part : BlockPart} : inv (.block k) b → part.fits k → part.Made b →
    (Build.changeCall part.put).Leaves b (inv (.block k))
  endCall {b k} : inv (.block k) b → Build.endCall.Leaves b (inv .body)
  openSub {b} (name) : inv .top b → inv .body (b.openSub name).2
  closeSub {b} : inv .body b → inv .top b.closeSub.2

/-- A property of builders, for each place, that holds throughout if it does so in the actions that
change more than declared names. -/
class Builder.Kept (inv : Place → Builder → Prop) : Prop extends Builder.Emitted inv where
  same {p b c} : b.SameContent c → inv p b → inv p c
  addParameter {b s name type uniqueReg symbol symbols} (flags namedAs invocantType) :
    inv .body b → b.current = some s →
    s.symbols.declare name type uniqueReg = .ok (symbol, symbols) →
    inv .body (b.modifySub fun s => { s with
      symbols
      parameters := s.parameters ++
        [⟨{ (Target.ofSymbol symbol).addFlags flags with namedAs }, invocantType⟩] })
  addLexical {b t} (name) : inv .body b → b.Made (.target t) → b.PmcOr t →
    inv .body (b.modifySub fun s =>
      { s with lexicals := s.lexicals ++ [⟨name, { t with lexName := some name }⟩] })
  setLabel {b} (name) : inv .body b →
    inv .body { b.modifySub fun s =>
        { s with labels := s.labels.insert name s.statements.length } with
      pendingLabel := some name }
  setNamespace {b} (names : List String) : inv .top b →
    inv .top (b.setNamespace (Key.ofList? (names.map .string)))

/-- A property of builders, for each place, that holds throughout if it does so in the actions that
change the code. -/
class Builder.Invariant (inv : Place → Builder → Prop) : Prop extends Builder.Emitted inv where
  same {p b c} : b.SameCode c → inv p b → inv p c

/-- A property of the code alone does not mind parameters, lexicals, labels and namespaces. -/
instance {inv : Place → Builder → Prop} [Builder.Invariant inv] : Builder.Kept inv where
  same h := Builder.Invariant.same h.sameCode
  addParameter _ _ _ h _ _ := Builder.Invariant.same (.modifySub _ fun _ => rfl) h
  addLexical _ h _ _ := Builder.Invariant.same (.modifySub _ fun _ => rfl) h
  setLabel {b} name := by
    have h := Builder.SameCode.modifySub b
      (f := fun s => { s with labels := s.labels.insert name s.statements.length }) fun _ => rfl
    exact Builder.Invariant.same ⟨h.closed, h.current, h.pendingCall⟩
  setNamespace _ := Builder.Invariant.same ⟨rfl, rfl, rfl⟩

namespace Pairing

variable {α : Type} {inv : Place → Builder → Prop} {n : Nat} {p : Place} {b : Builder}

/-- One run next to itself, which keeps an invariant of the builder and comes to lines with fewer
than `n` steps ahead. -/
def single (inv : Place → Builder → Prop) (n : Nat) : Pairing where
  tok := Eq
  err := Eq
  start L M := L = M ∧ L.length < n
  askew _ _ := False
  rel p b c := b = c ∧ inv p b
  past p b c := b = c ∧ inv p b
  stopped _ _ _ _ := True
  aside _ _ := False
  stray _ _ _ := True

theorem single_agree {x : Build α} (h : x.Leaves b (inv p)) :
    (single inv n).Agree (fun _ => (single inv n).rel p) (x.run b) (x.run b) := by
  unfold Build.Leaves at h
  generalize x.run b = r at *
  obtain ⟨f | a, b'⟩ := r
  · exact .stopped trivial
  · exact .ok ⟨rfl, h a b' rfl⟩

theorem single_mid {L : List Step} (h : L.length ≤ n) (hn : 0 < n) :
    (single inv n).mid L L := by
  induction L with
  | nil => exact .nil ⟨rfl, hn⟩
  | cons step L ih =>
    have hL : L.length < n := h
    cases step with
    | error f => exact .fault rfl (ih (Nat.le_of_lt hL))
    | ok t =>
      cases ht : t.kind.isNewline with
      | false => exact .token rfl ht (ih (Nat.le_of_lt hL))
      | true => exact .newline rfl ht ⟨rfl, hL⟩

variable [Builder.Kept inv]

/-- An action that changes declared names at most. -/
theorem single_same {x : Build α} (h : inv p b) (hx : x.Leaves b b.SameContent) :
    (single inv n).Agree (fun _ => (single inv n).rel p) (x.run b) (x.run b) :=
  single_agree fun a b' hrun => Builder.Kept.same (hx a b' hrun) h

instance : (single inv n).Readable where
  like h := h ▸ ⟨rfl, rfl⟩
  unexpected _ h := h ▸ rfl
  endOfInput _ := rfl
  alike h := h.1 ▸ ⟨rfl, rfl, rfl, rfl, rfl, rfl⟩
  report message _ h := h.1 ▸ single_same h.2 (Build.report_sameContent _ message)
  passed h := h

open Builder (Emitted Kept SameContent)

instance : (single inv n).Buildable where
  glimpse {L M} h := by
    obtain ⟨rfl, hn⟩ := h
    left
    cases L with
    | nil => exact .nil
    | cons step L =>
      cases step with
      | ok t => exact .token rfl
      | error f => exact .fault rfl ⟨rfl, Nat.lt_of_succ_lt hn⟩
  strays _ := trivial
  astray_left _ _ h _ := h.elim
  astray_right _ _ h _ := h.elim
  instruction {b c} i h := by
    have hs : b.SameContent { b with pendingInstruction := i } :=
      .of_eq rfl rfl rfl List.prefix_rfl
    exact ⟨h.1 ▸ rfl, Kept.same hs h.2⟩
  emit h hs := h.1 ▸ single_agree (Emitted.emit h.2 hs)
  beginBlock k h _ := ⟨h.1 ▸ rfl, Emitted.beginBlock k h.2⟩
  declareConstant name value h :=
    h.1 ▸ single_same h.2 (Build.declareConstant_sameContent name value)
  declareGlobalConstant name value h :=
    h.1 ▸ single_same h.2 (Build.declareGlobalConstant_sameContent name value)
  declareLocal {p b c} name type uniqueReg _ h := by
    obtain ⟨rfl, h⟩ := h
    refine single_same h (Build.declareSymbol_leaves name type uniqueReg (fun _ hs => hs) ?_)
    intro s symbol symbols hs hok
    refine .modifySub b fun s' hs' => ?_
    obtain rfl := Option.some.inj (hs.symm.trans hs')
    exact ⟨rfl, .refl _, (SymbolTable.declare_ok hok).1⟩
  addParameter {b c} type name flags namedAs invocantType h := by
    obtain ⟨rfl, h⟩ := h
    refine single_agree (Build.declareSymbol_leaves name type _ (fun _ hs => Kept.same hs h) ?_)
    intro s symbol symbols hs hok
    exact Kept.addParameter flags namedAs invocantType h hs hok
  addLexical name h ht hpmc :=
    h.1 ▸ single_agree (Build.bindLexical_leaves name _ (Kept.addLexical name h.2 ht hpmc))

instance : (single inv n).Lawful where
  next h := h
  line {p b c t u} htok h := by
    have hs : b.SameContent (b.setLine t.line) := .of_eq rfl rfl rfl List.prefix_rfl
    exact ⟨htok ▸ h.1 ▸ rfl, Kept.same hs h.2⟩
  malformed message h := h.1 ▸ single_same h.2 (Build.report_sameContent _ message)
  mend he h := by
    obtain ⟨rfl, h⟩ := h
    obtain rfl := he
    exact single_same h (Build.mend_sameContent _)
  drop {p b c} h := by
    have hs : b.SameContent b.dropInstruction := .of_eq rfl rfl rfl List.prefix_rfl
    exact ⟨h.1 ▸ rfl, Kept.same hs h.2⟩
  setLabel name h := h.1 ▸ single_agree
    (Build.setLabel_leaves_of name (fun _ hs => Kept.same hs h.2) (Kept.setLabel name h.2))
  leaveBlock h := ⟨h.1, Emitted.leaveBlock h.2⟩
  changeCall h hf hm := h.1 ▸ single_agree (Emitted.changeCall h.2 hf hm)
  endCall h := h.1 ▸ single_agree (Emitted.endCall h.2)
  openSub name h := ⟨h.1 ▸ rfl, Emitted.openSub name h.2⟩
  closeSub h := ⟨h.1 ▸ rfl, Emitted.closeSub h.2⟩
  modifySub {b c f} h hf := by
    obtain ⟨rfl, h⟩ := h
    refine ⟨rfl, Kept.same (SameContent.modifySub b fun s _ => ?_) h⟩
    obtain ⟨hn, hp, hl, hc, hs, ht, hsymbols⟩ := hf s
    refine ⟨?_, hc ▸ .refl _, hsymbols ▸ .refl _⟩
    simp only [Subroutine.content, hn, hp, hl, hs, ht]
  modifyUnit {b c f} h hf := by
    obtain ⟨rfl, h⟩ := h
    refine ⟨rfl, ?_⟩
    have hcurrent := (SameContent.of_eq (b := b) rfl rfl rfl List.prefix_rfl).current
    obtain hkey | ⟨names, hkey⟩ := hf.namespaceKey
    · exact Kept.same ⟨hf.subroutines _, hkey _, hf.constants b.unit ▸ .refl _,
        hf.globalConstants b.unit ▸ .refl _, hcurrent, rfl, List.prefix_rfl⟩ h
    · have hs : (b.setNamespace (Key.ofList? (names.map .string))).SameContent
          { b with unit := f b.unit } :=
        ⟨hf.subroutines _, hkey _, hf.constants b.unit ▸ .refl _,
          hf.globalConstants b.unit ▸ .refl _, hcurrent, rfl, List.prefix_rfl⟩
      exact Kept.same hs (Kept.setNamespace names h)

instance : (single inv n).Continuing where
  start_cases {L M} h := by
    obtain ⟨rfl, hn⟩ := h
    exact .inl (single_mid (Nat.le_of_lt hn) (Nat.lt_of_le_of_lt (Nat.zero_le _) hn))

end Pairing
end PirFrontend
