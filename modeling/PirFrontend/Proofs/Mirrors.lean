import PirFrontend.Proofs.Commands
import PirFrontend.Proofs.Twins

/-!
Two runs that build the same. Tokens of the two may differ in their places within a line, but
neither in their lines nor in anything else, so both runs have the same builder at every step, and
if one of them has to stop, so has the other, for the same reason. What such a pairing asks of the
actions of the builder is that they charge problems to the current line; so it may carry an
invariant that is about the problems and the line.
-/
namespace PirFrontend

open PirFrontend.Parser (Place Block)

/-! What actions report -/

namespace Builder

/-- At most problems on the current line are added to those that were reported. -/
structure Charges (b c : Builder) : Prop where
  line : c.line = b.line
  diagnostics : ∃ ds, c.diagnostics = b.diagnostics ++ ds ∧ ∀ d ∈ ds, d.line = b.line

variable {supplied : String → Prop} {b c d : Builder}

theorem charges_of_eq (hl : c.line = b.line) (hd : c.diagnostics = b.diagnostics) :
    b.Charges c :=
  ⟨hl, [], by rw [hd, List.append_nil], nofun⟩

theorem Charges.trans (h : b.Charges c) (h' : c.Charges d) : b.Charges d := by
  obtain ⟨ds, hds, hon⟩ := h.diagnostics
  obtain ⟨es, hes, hon'⟩ := h'.diagnostics
  refine ⟨h'.line.trans h.line, ds ++ es, by rw [hes, hds, List.append_assoc], ?_⟩
  intro e he
  obtain he | he := List.mem_append.1 he
  · exact hon e he
  · exact (hon' e he).trans h.line

theorem charges_entered (b : Builder) (kind : DiagnosticKind) (message : String) :
    b.Charges (b.entered kind message) := by
  refine ⟨rfl, _, rfl, ?_⟩
  intro e he
  rw [List.mem_singleton.1 he]

theorem Move.charges (h : b.Move supplied c) : b.Charges c := by
  cases h with
  | report kind message => exact charges_entered b kind message
  | label | spend | instruction | call | declare | unit => exact charges_of_eq rfl rfl

theorem Moves.charges (h : b.Moves supplied c) : b.Charges c := by
  induction h with
  | refl => exact charges_of_eq rfl rfl
  | tail _ hmove ih => exact ih.trans hmove.charges

theorem Emits.charges (h : b.Emits supplied c) : b.Charges c := by
  cases h with
  | emit => exact charges_of_eq rfl rfl

theorem charges_closeSub (b : Builder) : b.Charges b.closeSub.2 := by
  unfold closeSub
  split <;> exact charges_of_eq rfl rfl

end Builder

theorem Build.Adds.charges {α : Type} {x : Build α} {supplied : String → Prop} {b : Builder}
    (h : x.Adds supplied b) : b.Charges (x.run b).2 := by
  obtain ⟨c, hmoves, heq | ⟨-, hemits⟩⟩ := h
  · rw [heq]
    exact hmoves.charges
  · exact hmoves.charges.trans hemits.charges

/-- What is to hold of two runs that build the same. -/
structure Mirror where
  /-- What is kept of the builder. -/
  inv : Builder → Prop
  /-- The lines on which tokens are met. -/
  place : Nat → Prop
  /-- The lines to which broken rules are charged. -/
  charged : Nat → Prop
  /-- What is left of the texts where a line begins. -/
  start : List Step → List Step → Prop
  /-- The same, but the next lines differ. -/
  askew : List Step → List Step → Prop

theorem BlockPart.label_put (part : BlockPart) (c : PendingCall) :
    (part.put c).invocation.label = c.invocation.label := by
  cases part <;> rfl

namespace Mirror

def pairing (M : Mirror) : Pairing where
  tok t u := Likeness.exact.Tokens t u ∧ M.place t.line
  err e f := Likeness.exact.Errors e f ∧ ∀ l, e.line? = some l → M.charged l
  start := M.start
  askew := M.askew
  rel _ b c := b = c ∧ M.inv b
  past _ b c := b = c ∧ M.inv b
  stopped f b g c := f = g ∧ b = c ∧ M.inv b
  aside _ b := M.inv b ∧ ∃ L L', M.askew L L'
  stray _ b c := M.inv b ∧ M.inv c

/-- Where a line begins, the texts of a mirror that asks nothing of the lines go on alike to its
end, or they differ there. -/
theorem start_cases {M : Mirror} {askew : List Step → List Step → Prop}
    (htextual : Textual .exact M.start askew) (hplace : ∀ l, M.place l)
    (hcharged : ∀ l, M.charged l) {L L' : List Step} (h : M.start L L') :
    M.pairing.mid L L' ∨ askew L L' :=
  (htextual.cases h).imp_left fun hmid =>
    hmid.imp (fun htu => ⟨htu, hplace _⟩) (fun hef => ⟨hef, fun l _ => hcharged l⟩) id

/-- The invariant is about the problems and the line, and no line on which a token is met or to
which a broken rule is charged breaks it. -/
structure Faithful (M : Mirror) : Prop where
  charges {b c} : b.Charges c → M.inv b → M.inv c
  setLine {b l} : M.charged l → M.inv b → M.inv (b.setLine l)
  charged {l} : M.place l → M.charged l
  glimpse {L L'} : M.start L L' → M.pairing.Glimpse L L' ∨ M.askew L L'

variable {M : Mirror} {α : Type} {b : Builder}

open Pairing

/-- An action that only reports and emits ends in the same way twice. -/
theorem Faithful.agree (hM : M.Faithful) (hb : M.inv b) {x : Build α}
    (hx : x.Adds (fun _ => True) b) :
    M.pairing.Agree (fun _ b c => b = c ∧ M.inv b) (x.run b) (x.run b) := by
  have hinv := hM.charges hx.charges hb
  revert hinv
  generalize x.run b = r
  intro hinv
  obtain ⟨f | a, c⟩ := r
  · exact .stopped ⟨rfl, rfl, hinv⟩
  · exact .ok ⟨rfl, hinv⟩

/-- A change that does not touch the problems or the line is made in both runs. -/
theorem Faithful.change (hM : M.Faithful) {c : Builder} {f : Builder → Builder}
    (h : b = c ∧ M.inv b) (hf : ∀ b : Builder, b.Charges (f b)) : f b = f c ∧ M.inv (f b) :=
  ⟨h.1 ▸ rfl, hM.charges (hf b) h.2⟩

/-- Where texts differ, a report may stop one run without the other. -/
theorem Faithful.astray (hM : M.Faithful) {L L' : List Step} (ha : M.askew L L')
    (hb : M.inv b) (kind : DiagnosticKind) (message : String) {Q : Builder → Prop}
    (hQ : ∀ c, M.inv c → Q c) :
    match (Build.report kind message).run b with
    | (.ok _, b') => Q b'
    | (.error f, b') => M.pairing.aside f b' := by
  have hreport : (Build.report kind message).Moves (fun _ => True) b :=
    Build.report_moves kind message
  have hinv := hM.charges hreport.charges hb
  revert hinv
  generalize (Build.report kind message).run b = r
  intro hinv
  obtain ⟨f | a, c⟩ := r
  · exact ⟨hinv, L, L', ha⟩
  · exact hQ c hinv

theorem Faithful.readable (hM : M.Faithful) : M.pairing.Readable where
  like h := h.1.like
  unexpected expected h := by
    refine ⟨.unexpected h.1 expected, ?_⟩
    rintro l ⟨⟩
    exact hM.charged h.2
  endOfInput _ := ⟨⟨rfl, .none⟩, nofun⟩
  alike h := h.1 ▸ ⟨rfl, rfl, rfl, rfl, rfl, rfl⟩
  report message _ h := h.1 ▸ hM.agree h.2 (Build.report_moves _ message).adds
  passed h := h

theorem Faithful.buildable (hM : M.Faithful) : M.pairing.Buildable where
  toReadable := hM.readable
  glimpse := hM.glimpse
  strays h := ⟨h.2, h.1 ▸ h.2⟩
  astray_left kind message ha h := hM.astray ha h.1 kind message fun _ hb => ⟨hb, h.2⟩
  astray_right kind message ha h := hM.astray ha h.2 kind message fun _ hc => ⟨h.1, hc⟩
  instruction i h := hM.change (f := fun b => { b with pendingInstruction := i }) h fun _ =>
    Builder.charges_of_eq rfl rfl
  emit h _ := h.1 ▸ hM.agree h.2 (Build.emit_adds fun _ _ => trivial)
  beginBlock k h _ := by
    refine hM.change h fun _ => ?_
    cases k <;> exact Builder.charges_of_eq rfl rfl
  declareConstant name value h :=
    h.1 ▸ hM.agree h.2 (Build.declareConstant_moves name value).adds
  declareGlobalConstant name value h :=
    h.1 ▸ hM.agree h.2 (Build.declareGlobalConstant_moves name value).adds
  declareLocal name type uniqueReg _ h := h.1 ▸ hM.agree h.2
    (Build.declareSymbol_moves name type uniqueReg fun _ s => .refl s).adds
  addParameter type name _ _ _ h := h.1 ▸ hM.agree h.2
    (Build.declareSymbol_moves name type _ fun _ s => s.gains_parameter _).adds
  addLexical name h _ _ := h.1 ▸ hM.agree h.2 (Build.bindLexical_moves name _).adds

/-- A broken rule is mended in both runs, on the same line and with the same message. -/
theorem Faithful.mend (hM : M.Faithful) {e f : ParseError} (he : M.pairing.err e f)
    (hb : M.inv b) : M.pairing.Agree (fun _ b c => b = c ∧ M.inv b) ((Build.mend e).run b)
      ((Build.mend f).run b) := by
  obtain ⟨⟨hmessage, hline⟩, hcharged⟩ := he
  have hplace : e.line? = f.line? := by
    revert hline
    generalize e.line? = l
    generalize f.line? = m
    rintro (hlm | _)
    · exact congrArg some hlm
    · rfl
  rw [Build.run_mend, Build.run_mend, ← hmessage, ← hplace]
  refine hM.agree ?_ (Build.report_moves .malformed _).adds
  cases hl : e.line? with
  | none => exact hb
  | some l => exact hM.setLine (hcharged l hl) hb

theorem Faithful.lawful (hM : M.Faithful) : M.pairing.Lawful where
  toBuildable := hM.buildable
  next h := h
  line htok h := ⟨by rw [h.1, htok.1.line], hM.setLine (hM.charged htok.2) h.2⟩
  malformed message h := h.1 ▸ hM.agree h.2 (Build.report_moves .malformed message).adds
  mend he h := h.1 ▸ hM.mend he h.2
  drop h := hM.change h fun _ => Builder.charges_of_eq rfl rfl
  setLabel name h := h.1 ▸ hM.agree h.2 (Build.setLabel_moves name).adds
  leaveBlock h := h
  changeCall h _ _ := h.1 ▸ hM.agree h.2
    (Build.changeCall_moves (Builder.collects_any _) (BlockPart.label_put _)).adds
  endCall h := h.1 ▸ hM.agree h.2 (Build.endCall_adds (Builder.collects_any _))
  openSub name h := hM.change (f := fun b => (b.openSub name).2) h fun b =>
    b.charges_closeSub.trans (Builder.charges_of_eq rfl rfl)
  closeSub h := hM.change (f := fun b => b.closeSub.2) h Builder.charges_closeSub
  modifySub {b c f} h _ := hM.change (f := (·.modifySub f)) h fun _ =>
    Builder.charges_of_eq rfl rfl
  modifyUnit {b c f} h _ := hM.change (f := fun b => { b with unit := f b.unit }) h fun _ =>
    Builder.charges_of_eq rfl rfl

end Mirror
end PirFrontend
