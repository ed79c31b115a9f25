import PirFrontend.Build.Declaration
import PirFrontend.Build.Frame
import PirFrontend.Build.Invoking
import PirFrontend.Proofs.Running

/-!
What reporting and emitting leave behind, and what closing and opening a subroutine. All other
actions of the builder are made of the first two and of changes that always succeed.
-/
namespace PirFrontend
namespace Builder

/-- The builder with more problems reported. -/
def reported (b : Builder) (ds : List Diagnostic) : Builder :=
  { b with diagnostics := b.diagnostics ++ ds }

@[simp]
theorem reported_nil (b : Builder) : b.reported [] = b := by
  simp [reported]

theorem reported_reported (b : Builder) (ds es : List Diagnostic) :
    (b.reported ds).reported es = b.reported (ds ++ es) := by
  simp [reported, List.append_assoc]

/-- Building goes on, and no more problems were entered than are tolerated. -/
structure Ongoing (b : Builder) : Prop where
  aborted : b.aborted = false
  tolerated : b.overfull = false

/-- No problem was entered, and nothing about giving up has changed. -/
structure SameProblems (b c : Builder) : Prop where
  options : c.options = b.options
  diagnostics : c.diagnostics = b.diagnostics
  aborted : c.aborted = b.aborted

theorem SameProblems.trans {b c d : Builder} (h : b.SameProblems c) (h' : c.SameProblems d) :
    b.SameProblems d :=
  ⟨h'.options.trans h.options, h'.diagnostics.trans h.diagnostics, h'.aborted.trans h.aborted⟩

theorem Ongoing.of_same {b c : Builder} (h : b.Ongoing) (hsame : b.SameProblems c) : c.Ongoing := by
  refine ⟨hsame.aborted.trans h.aborted, ?_⟩
  have htolerated := h.tolerated
  unfold overfull at htolerated ⊢
  rwa [hsame.options, hsame.diagnostics]

/-- The builder after a report: it has one problem more, and is given up if that is one too many. -/
def entered (b : Builder) (kind : DiagnosticKind) (message : String) : Builder :=
  { b.record kind message with aborted := (b.record kind message).overfull }

section

variable {b : Builder} {kind : DiagnosticKind} {message : String}

theorem Ongoing.record (h : b.Ongoing) (hr : (b.record kind message).overfull = false) :
    (b.record kind message).Ongoing :=
  ⟨h.aborted, hr⟩

theorem entered_of_overfull (hr : (b.record kind message).overfull = true) :
    b.entered kind message = { b.record kind message with aborted := true } := by
  rw [entered, hr]

theorem entered_of_tolerated (ha : b.aborted = false)
    (hr : (b.record kind message).overfull = false) :
    b.entered kind message = b.record kind message := by
  rw [entered, hr, ← ha]
  rfl

end

/-- The open subroutine has these statements more, and nothing else about it has changed. -/
def Appends (b b' : Builder) (added : List Statement) : Prop :=
  ∃ s, b.current = some s ∧ b'.current = some { s with statements := s.statements ++ added }

/-- The builder with one statement more in the open subroutine, under the waiting label. -/
def appended (b : Builder) (st : Statement) : Builder :=
  { b with pendingLabel := none }.modifySub fun s =>
    { s with statements := s.statements ++ [st.labelled b.pendingLabel] }

theorem appends_appended {b : Builder} (hs : b.current.isSome) (st : Statement) :
    b.Appends (b.appended st) [st.labelled b.pendingLabel] := by
  obtain ⟨s, hs⟩ := Option.isSome_iff_exists.1 hs
  exact ⟨s, hs, by simp [appended, modifySub, hs]⟩

/-! Closing and opening -/

/-- All subroutines, the open one last. -/
def subs (b : Builder) : List Subroutine := b.unit.subroutines ++ b.current.toList

variable {b : Builder}

/-- Where no subroutine is open, none is closed. -/
theorem closeSub_of_none (hs : b.current = none) : b.closeSub.2 = b := by
  unfold closeSub
  rw [hs]

theorem current_closeSub : b.closeSub.2.current = none := by
  unfold closeSub
  split
  next hs => exact hs
  next => rfl

theorem closeSub_same (b : Builder) : b.SameProblems b.closeSub.2 := by
  unfold closeSub
  split <;> exact ⟨rfl, rfl, rfl⟩

theorem subroutines_closeSub (b : Builder) : b.closeSub.2.unit.subroutines = b.subs := by
  unfold closeSub subs
  split
  next hs => rw [hs, Option.toList_none, List.append_nil]
  next s hs => rw [hs, Option.toList_some]

theorem subs_closeSub (b : Builder) : b.closeSub.2.subs = b.subs := by
  rw [subs, subroutines_closeSub, current_closeSub, Option.toList_none, List.append_nil]

theorem subroutines_openSub (b : Builder) (name : String) :
    (b.openSub name).2.unit.subroutines = b.subs :=
  b.subroutines_closeSub

theorem subs_openSub (b : Builder) (name : String) :
    (b.openSub name).2.subs = b.subs ++
      [{ Subroutine.empty name with namespaceKey := b.closeSub.2.unit.namespaceKey }] := by
  rw [subs, subroutines_openSub]
  rfl

end Builder

namespace Build

variable {b : Builder}

theorem run_report (kind : DiagnosticKind) (message : String) (b : Builder) :
    (report kind message).run b =
      if b.aborted then (.error b.tooManyErrors, b)
      else if (b.record kind message).overfull then
        (.error (b.record kind message).tooManyErrors,
          { b.record kind message with aborted := true })
      else (.ok (), b.record kind message) := by
  unfold report
  rw [run_bind]
  simp only [run_get]
  split
  · rfl
  · split <;> rfl

/-- A problem is entered, unless building was given up before. -/
theorem report_cases (kind : DiagnosticKind) (message : String) (b : Builder) :
    (b.aborted = true ∧ (report kind message).run b = (.error b.tooManyErrors, b)) ∨
    (b.aborted = false ∧ (b.record kind message).overfull = true ∧
      (report kind message).run b = (.error (b.record kind message).tooManyErrors,
        { b.record kind message with aborted := true })) ∨
    (b.aborted = false ∧ (b.record kind message).overfull = false ∧
      (report kind message).run b = (.ok (), b.record kind message)) := by
  rw [run_report]
  cases hb : b.aborted <;> cases hr : (b.record kind message).overfull <;> simp

/-- A report succeeds only where building goes on and the problem is tolerated. -/
theorem run_report_ok {kind : DiagnosticKind} {message : String} {a : Unit} {b' : Builder}
    (h : (report kind message).run b = (.ok a, b')) :
    b.aborted = false ∧ (b.record kind message).overfull = false ∧ b' = b.record kind message := by
  obtain ⟨-, hr⟩ | ⟨-, -, hr⟩ | ⟨ha, hfew, hr⟩ := report_cases kind message b
  · cases hr.symm.trans h
  · cases hr.symm.trans h
  · cases hr.symm.trans h
    exact ⟨ha, hfew, rfl⟩

/-- What comes after a report is reached, unless that problem was one too many. -/
theorem run_report_bind {α : Type} {kind : DiagnosticKind} {message : String} {f : Unit → Build α}
    (h : ((report kind message >>= f).run b).2.aborted = false) :
    (report kind message >>= f).run b = (f ()).run (b.record kind message) ∧
      (b.record kind message).aborted = false := by
  obtain ⟨ha, hr⟩ | ⟨-, -, hr⟩ | ⟨ha, -, hr⟩ := report_cases kind message b
  · rw [run_bind_error hr, ha] at h
    contradiction
  · rw [run_bind_error hr] at h
    contradiction
  · exact ⟨run_bind_ok hr, ha⟩

theorem run_report_of_not_aborted {kind : DiagnosticKind} {message : String}
    (h : ((report kind message).run b).2.aborted = false) :
    (report kind message).run b = (.ok (), b.record kind message) := by
  obtain ⟨ha, hr⟩ | ⟨-, -, hr⟩ | ⟨-, -, hr⟩ := report_cases kind message b
  · rw [hr, ha] at h
    contradiction
  · rw [hr] at h
    contradiction
  · exact hr

theorem run_currentSub {s : Subroutine} (hs : b.current = some s) :
    currentSub.run b = (.ok s, b) := by
  unfold currentSub
  rw [run_bind, run_get]
  simp only [hs]
  rfl

theorem run_currentSub_none (hs : b.current = none) :
    currentSub.run b = (.error (.internal "no subroutine is open"), b) := by
  unfold currentSub
  rw [run_bind, run_get]
  simp only [hs]
  rfl

/-- In a subroutine a constant is one of the subroutine. -/
theorem run_declareConstant_sub {s : Subroutine} (h : b.current = some s) (name : String)
    (value : ConstantValue) : (declareConstant name value).run b =
      if s.constants.contains name then (complain (.duplicateConstant name)).run b
      else (.ok (), b.modifySub fun s =>
        { s with constants := s.constants.insert name (.named name value) }) := by
  unfold declareConstant
  dsimp only
  rw [run_bind]
  simp only [run_get, h]
  split <;> rfl

/-- Outside of subroutines a constant is one of the file. -/
theorem run_declareConstant_file (h : b.current = none) (name : String) (value : ConstantValue) :
    (declareConstant name value).run b =
      if b.unit.constants.contains name then (complain (.duplicateConstant name)).run b
      else (.ok (), { b with unit := { b.unit with
        constants := b.unit.constants.insert name (.named name value) } }) := by
  unfold declareConstant
  dsimp only
  rw [run_bind]
  simp only [run_get, h]
  split <;> rfl

theorem run_declareGlobalConstant (name : String) (value : ConstantValue) (b : Builder) :
    (declareGlobalConstant name value).run b =
      if b.unit.globalConstants.contains name then (complain (.duplicateConstant name)).run b
      else (.ok (), { b with unit := { b.unit with
        globalConstants := b.unit.globalConstants.insert name (.named name value) } }) := by
  unfold declareGlobalConstant
  rw [run_bind]
  simp only [run_get]
  split <;> rfl

theorem pushOperands_same (operands : List Expression) (b : Builder) :
    b.SameProblems (operands.foldl Builder.pushOperand b) := by
  induction operands generalizing b with
  | nil => exact ⟨rfl, rfl, rfl⟩
  | cons e operands ih =>
    have hpushed := ih (b.pushOperand e)
    exact ⟨hpushed.options, hpushed.diagnostics, hpushed.aborted⟩

theorem run_changeCall {call : PendingCall} (h : b.pendingCall = some call)
    (f : PendingCall → PendingCall) :
    (changeCall f).run b = (.ok (), { b with pendingCall := some (f call) }) := by
  unfold changeCall currentCall
  rw [run_bind, run_bind]
  simp only [run_get, h]
  rfl

/-- The block is closed before it is emitted or dropped. -/
theorem run_endCall {call : PendingCall} (h : b.pendingCall = some call) :
    endCall.run b = (if call.hasTarget then emit (.invocation call.invocation)
      else complain .blockWithoutTarget).run { b with pendingCall := none } := by
  unfold endCall
  rw [run_bind]
  simp only [run_get, h]
  rfl

/-- A build that was given up makes no more statements. -/
theorem run_emit_refused (ha : b.aborted = true) (st : Statement) :
    (emit st).run b = (.error b.tooManyErrors, b) := by
  unfold emit
  rw [run_bind, run_get]
  simp only [if_pos ha]
  rfl

/-- The label that waits is used up before the subroutine is asked for. -/
theorem run_emit_bind (ha : b.aborted = false) (st : Statement) :
    (emit st).run b = (currentSub >>= fun _ => modify (·.modifySub fun s =>
      { s with statements := s.statements ++ [st.labelled b.pendingLabel] }) : Build PUnit).run
        { b with pendingLabel := none } := by
  unfold emit
  rw [run_bind, run_get]
  simp only [if_neg (ha ▸ Bool.false_ne_true : ¬b.aborted = true)]
  rw [run_bind, run_set]

/-- Outside of subroutines a statement is lost, and the label that waited goes with it. -/
theorem run_emit_outside (ha : b.aborted = false) (hs : b.current = none) (st : Statement) :
    (emit st).run b =
      (.error (.internal "no subroutine is open"), { b with pendingLabel := none }) := by
  have hc := run_currentSub_none (b := { b with pendingLabel := none }) hs
  rw [run_emit_bind ha, run_bind_error hc]

/-- A statement goes to the end of the open subroutine, with the label that waited for it. -/
theorem run_emit {s : Subroutine} (ha : b.aborted = false) (hs : b.current = some s)
    (st : Statement) :
    (emit st).run b = (.ok (),
      { b with
        pendingLabel := none
        current := some { s with
          statements := s.statements ++ [st.labelled b.pendingLabel] } }) := by
  have hc := run_currentSub (b := { b with pendingLabel := none }) hs
  rw [run_emit_bind ha, run_bind_ok hc]
  simp [Builder.modifySub, hs]

/-- A statement is emitted only into an open subroutine of a build that was not given up. -/
theorem run_emit_ok {st : Statement} {a : Unit} {b' : Builder}
    (h : (emit st).run b = (.ok a, b')) : b.aborted = false ∧ ∃ s, b.current = some s := by
  cases ha : b.aborted with
  | true =>
    rw [run_emit_refused ha] at h
    cases h
  | false =>
    cases hs : b.current with
    | none =>
      rw [run_emit_outside ha hs] at h
      cases h
    | some s => exact ⟨rfl, s, rfl⟩

theorem run_emit_appended (ha : b.aborted = false) (hs : b.current.isSome) (st : Statement) :
    (emit st).run b = (.ok (), b.appended st) := by
  obtain ⟨s, hs⟩ := Option.isSome_iff_exists.1 hs
  rw [run_emit ha hs]
  simp [Builder.appended, Builder.modifySub, hs]

theorem appends_emit (ha : b.aborted = false) (hs : b.current.isSome) (st : Statement) :
    ((emit st).run b).1 = .ok () ∧ b.Appends ((emit st).run b).2 [st.labelled b.pendingLabel] := by
  rw [run_emit_appended ha hs]
  exact ⟨rfl, Builder.appends_appended hs st⟩

/-! What names stand for -/

theorem run_symbolTarget {s : Symbol} {name : String} (h : b.lookup name = some s) :
    (symbolTarget name).run b = (.ok (.ofSymbol s), b) := by
  unfold symbolTarget
  rw [run_bind, run_get]
  simp only [h]
  rfl

theorem run_identifierValue {s : Symbol} {name : String} (h : b.lookup name = some s) :
    (identifierValue name).run b = (.ok (.target (.ofSymbol s)), b) := by
  unfold identifierValue
  rw [run_bind, run_get]
  simp only [h]
  rw [run_bind_ok (run_symbolTarget h)]
  rfl

/-! What an action leaves behind if it succeeds -/

/-- If the action succeeds, this holds of what it leaves. -/
def Leaves {α : Type} (x : Build α) (b : Builder) (Q : Builder → Prop) : Prop :=
  ∀ a b', x.run b = (.ok a, b') → Q b'

variable {α β : Type}

theorem Leaves.pure {a : α} {Q : Builder → Prop} (h : Q b) : (pure a : Build α).Leaves b Q := by
  rintro _ _ ⟨⟩
  exact h

theorem Leaves.throw {f : Fatal} {Q : Builder → Prop} : (throw f : Build α).Leaves b Q := by
  intro a b' h
  rw [run_throw] at h
  cases h

theorem Leaves.set {b' : Builder} {Q : Builder → Prop} (h : Q b') :
    (set b' : Build PUnit).Leaves b Q := by
  rintro _ _ ⟨⟩
  exact h

theorem Leaves.modify {f : Builder → Builder} {Q : Builder → Prop} (h : Q (f b)) :
    (modify f : Build PUnit).Leaves b Q := by
  rintro _ _ ⟨⟩
  exact h

theorem Leaves.bind {x : Build α} {f : α → Build β} {Q R : Builder → Prop} (hx : x.Leaves b Q)
    (hf : ∀ a b', Q b' → (f a).Leaves b' R) : (x >>= f).Leaves b R := by
  intro c b'' h
  obtain ⟨a, b', hr, h⟩ := exists_of_run_bind h
  exact hf a b' (hx a b' hr) c b'' h

theorem Leaves.get {f : Builder → Build α} {Q : Builder → Prop} (h : (f b).Leaves b Q) :
    (do f (← get)).Leaves b Q := by
  intro a b' hrun
  exact h a b' hrun

theorem currentSub_leaves {Q : Builder → Prop} (h : Q b) : currentSub.Leaves b Q := by
  apply Leaves.get
  split
  · exact .pure h
  · exact .throw

theorem Leaves.currentSub {f : Subroutine → Build α} {Q : Builder → Prop}
    (h : ∀ s, b.current = some s → (f s).Leaves b Q) : (currentSub >>= f).Leaves b Q := by
  intro a b' hrun
  cases hs : b.current with
  | none =>
    unfold Build.currentSub at hrun
    simp only [run_bind, run_get, hs] at hrun
    cases hrun
  | some s =>
    rw [run_bind_ok (run_currentSub hs)] at hrun
    exact h s hs a b' hrun

theorem Leaves.report {kind : DiagnosticKind} {message : String} {Q : Builder → Prop}
    (h : (b.record kind message).overfull = false → Q (b.record kind message)) :
    (report kind message).Leaves b Q := by
  intro _ b' hrun
  obtain ⟨-, hfew, rfl⟩ := run_report_ok hrun
  exact h hfew

theorem emit_leaves (st : Statement) {Q : Builder → Prop}
    (h : ∀ s, b.current = some s → Q { b with
      pendingLabel := none
      current := some { s with statements := s.statements ++ [st.labelled b.pendingLabel] } }) :
    (emit st).Leaves b Q := by
  intro a b' hrun
  obtain ⟨ha, s, hs⟩ := run_emit_ok hrun
  rw [run_emit ha hs] at hrun
  cases hrun
  exact h s hs

theorem changeCall_leaves (f : PendingCall → PendingCall) {Q : Builder → Prop}
    (h : ∀ call, b.pendingCall = some call → Q { b with pendingCall := some (f call) }) :
    (changeCall f).Leaves b Q := by
  intro a b' hrun
  cases hc : b.pendingCall with
  | none =>
    unfold changeCall currentCall at hrun
    simp only [run_bind, run_get, hc] at hrun
    cases hrun
  | some call =>
    rw [run_changeCall hc] at hrun
    cases hrun
    exact h call hc

theorem endCall_leaves {Q : Builder → Prop} (hnone : (complain .blockWithoutBegin).Leaves b Q)
    (hsome : ∀ call, b.pendingCall = some call →
      (emit (.invocation call.invocation)).Leaves { b with pendingCall := none } Q ∧
      (complain .blockWithoutTarget).Leaves { b with pendingCall := none } Q) :
    endCall.Leaves b Q := by
  intro a b' hrun
  cases hc : b.pendingCall with
  | none =>
    unfold endCall at hrun
    rw [run_bind, run_get] at hrun
    simp only [hc] at hrun
    exact hnone a b' hrun
  | some call =>
    rw [run_endCall hc] at hrun
    split at hrun
    · exact (hsome call hc).1 a b' hrun
    · exact (hsome call hc).2 a b' hrun

/-- A label leaves the line and the instruction in question as they were. -/
theorem setLabel_leaves (name : String) : (setLabel name).Leaves b fun b' =>
    b'.pendingInstruction = b.pendingInstruction ∧ b'.line = b.line ∧
      (b.Ongoing → b'.Ongoing) := by
  refine Leaves.bind (currentSub_leaves (Q := (b = ·)) rfl) ?_
  intro s _ rfl
  split
  · exact .report fun hr => ⟨rfl, rfl, fun hb => hb.record hr⟩
  · exact .modify ⟨rfl, rfl, fun hb => ⟨hb.aborted, hb.tolerated⟩⟩

end Build
end PirFrontend
