import Mathlib.Data.List.Induction
import PirFrontend.Proofs.Outcomes

/-!
What the directives of a block spell out. Each directive overwrites a part of the open block, so
what is emitted in the end depends on all of them, in their order.
-/
namespace PirFrontend

open PirFrontend.Parser (Place Block)

namespace BlockPart

/-- What the last directive says that says something. -/
def last {α : Type} (f : BlockPart → Option α) (parts : List BlockPart) : Option α :=
  parts.reverse.findSome? f

end BlockPart

namespace Parser.Block

/-- The block at its beginning. -/
def opened : Block → PendingCall
  | call => ⟨.empty .pcc, false⟩
  | returns => ⟨.empty .returnValues, true⟩
  | yields => ⟨.empty .yieldValues, true⟩

/-- The block behind its directives. -/
def after (k : Block) (parts : List BlockPart) : PendingCall :=
  parts.foldl (fun c part => part.put c) k.opened

variable {k : Block} {parts : List BlockPart}

@[simp]
theorem after_append (part : BlockPart) : k.after (parts ++ [part]) = part.put (k.after parts) := by
  simp [after]

end Parser.Block

/-! What is emitted -/

/-- Where an invocation comes from: from one line, or from the directives of a block. -/
inductive Origin where
  | line
  | block (k : Block) (parts : List BlockPart)

namespace Origin

/-- The origin gives an invocation, up to its label. -/
def Gives : Origin → Invocation → Prop
  | line, i => ∃ (b : Builder) (label : Option String),
      b.MadeStatement (.invocation { i with label })
  | block k parts, i => (∀ part ∈ parts, part.fits k) ∧ (k.after parts).hasTarget ∧
      ∃ label, { i with label } = (k.after parts).invocation

end Origin

/-- Every invocation among the statements has an origin. -/
def Originates (sts : List Statement) : Prop :=
  ∀ i, .invocation i ∈ sts → ∃ origin : Origin, origin.Gives i

theorem Originates.append {sts : List Statement} (h : Originates sts) {s : Statement}
    (hs : ∀ i, s = .invocation i → ∃ origin : Origin, origin.Gives i) :
    Originates (sts ++ [s]) := by
  intro i hi
  obtain hi | hi := List.mem_append.1 hi
  · exact h i hi
  · exact hs i (List.mem_singleton.1 hi).symm

theorem Origin.Gives.labelled {origin : Origin} {i i' : Invocation} (h : origin.Gives i)
    {label : Option String} (hi : (Statement.invocation i).labelled label = .invocation i') :
    origin.Gives i' := by
  obtain ⟨l, rfl⟩ : ∃ l, i' = { i with label := l } := by
    cases label with
    | none => exact ⟨i.label, (Statement.invocation.inj hi).symm⟩
    | some l => exact ⟨some l, (Statement.invocation.inj hi).symm⟩
  cases origin with
  | line => exact h
  | block k parts => exact h

/-- All invocations built so far have an origin, and an open block is that of its directives. -/
structure Builder.Traced (b : Builder) (p : Place) : Prop where
  closed : ∀ s ∈ b.unit.subroutines, Originates s.statements
  current : ∀ sts, b.current.map (·.statements) = some sts → Originates sts
  block : ∀ k, p = .block k → ∃ parts : List BlockPart, (∀ part ∈ parts, part.fits k) ∧
    b.pendingCall = some (k.after parts)

namespace Builder.Traced

variable {p : Place} {b : Builder}

theorem same {b' : Builder} (h : b.Traced p) (hs : b.SameCode b') : b'.Traced p :=
  ⟨hs.closed ▸ h.closed, hs.current ▸ h.current, hs.pendingCall ▸ h.block⟩

/-- A statement is emitted under the waiting label. -/
theorem emit (h : b.Traced p) {s : Statement}
    (hs : ∀ i, s = .invocation i → ∃ origin : Origin, origin.Gives i) :
    (Build.emit s).Leaves b (Traced · .body) := by
  refine Build.emit_leaves s fun sub hb => ⟨h.closed, fun sts hsts => ?_, nofun⟩
  obtain rfl : sub.statements ++ [s.labelled b.pendingLabel] = sts := Option.some.inj hsts
  apply Originates.append (h.current _ (by rw [hb]; rfl))
  intro i hi
  cases s with
  | instruction _ =>
    generalize b.pendingLabel = label at hi
    cases label <;> cases hi
  | invocation i' =>
    obtain ⟨origin, ho⟩ := hs i' rfl
    exact ⟨origin, ho.labelled hi⟩

theorem endCall {k : Block} (h : b.Traced (.block k)) :
    Build.endCall.Leaves b (Traced · .body) := by
  obtain ⟨parts, hfits, hparts⟩ := h.block k rfl
  intro a b' hrun
  rw [Build.run_endCall hparts] at hrun
  have h' : Traced { b with pendingCall := none } .body := ⟨h.closed, h.current, nofun⟩
  split at hrun
  next ht =>
    refine h'.emit (fun i hi => ⟨.block k parts, hfits, ht, i.label, ?_⟩) a b' hrun
    exact (Statement.invocation.inj hi).symm
  next => exact h'.same (Build.report_sameContent _ _ a b' hrun).sameCode

theorem changeCall {k : Block} {part : BlockPart} (h : b.Traced (.block k)) (hf : part.fits k) :
    (Build.changeCall part.put).Leaves b (Traced · (.block k)) := by
  obtain ⟨parts, hfits, hparts⟩ := h.block k rfl
  intro a b' hrun
  rw [Build.run_changeCall hparts] at hrun
  obtain ⟨-, rfl⟩ := hrun
  refine ⟨h.closed, h.current, ?_⟩
  rintro _ ⟨⟩
  refine ⟨parts ++ [part], fun part' hpart => ?_, ?_⟩
  · obtain hpart | hpart := List.mem_append.1 hpart
    · exact hfits part' hpart
    · exact List.mem_singleton.1 hpart ▸ hf
  · rw [Parser.Block.after_append]

theorem closeSub (h : b.Traced p) : b.closeSub.2.Traced .top := by
  unfold Builder.closeSub
  cases hb : b.current with
  | none => exact ⟨h.closed, fun sts hsts => h.current sts hsts, nofun⟩
  | some s =>
    refine ⟨fun s' hs' => ?_, nofun, nofun⟩
    obtain hs' | hs' := List.mem_append.1 hs'
    · exact h.closed s' hs'
    · obtain rfl := List.mem_singleton.1 hs'
      exact h.current _ (by rw [hb]; rfl)

theorem openSub (h : b.Traced p) (name : String) : (b.openSub name).2.Traced .body := by
  refine ⟨h.closeSub.closed, ?_, nofun⟩
  rintro _ ⟨⟩
  exact nofun

end Builder.Traced

instance : Builder.Invariant fun p b => b.Traced p where
  same hs h := h.same hs
  emit h hs := h.emit fun i hi => ⟨.line, _, i.label, hi ▸ hs⟩
  beginBlock k h := by
    refine ⟨?_, ?_, ?_⟩
    · cases k <;> exact h.closed
    · cases k <;> exact h.current
    · rintro _ ⟨⟩
      exact ⟨[], nofun, by cases k <;> rfl⟩
  leaveBlock h := ⟨h.closed, h.current, nofun⟩
  changeCall h hf _ := h.changeCall hf
  endCall h := h.endCall
  openSub name h := h.openSub name
  closeSub h := h.closeSub

end PirFrontend
