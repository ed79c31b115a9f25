import PirFrontend.Proofs.Outcomes
import PirFrontend.Proofs.Tables

/-!
What the check of labels sees. It looks at the operands of instructions alone, and would miss a
label that stood deeper: in a key, in an argument, or in what is called. No line puts one there, so
nothing is missed.
-/
namespace PirFrontend

open PirFrontend.Parser (Place Block)

/-! Where labels occur -/

mutual

/-- The labels that occur in a target. -/
def Target.mentioned : Target → List String
  | ⟨_, none, _, _, _⟩ => []
  | ⟨_, some key, _, _, _⟩ => key.mentioned

/-- The labels that occur in a key. -/
def Key.mentioned : Key → List String
  | ⟨first, more⟩ => first.mentioned ++ Key.mentionedMore more

/-- The labels that occur in the expressions behind the first. -/
def Key.mentionedMore : List Expression → List String
  | [] => []
  | e :: rest => e.mentioned ++ Key.mentionedMore rest

/-- The labels that occur in an operand, at any depth. -/
def Expression.mentioned : Expression → List String
  | .target t => t.mentioned
  | .constant _ => []
  | .key k => k.mentioned
  | .label name => [name]

end

/-- The labels that occur anywhere in an invocation. -/
def Invocation.mentioned (i : Invocation) : List String :=
  i.callee.elim [] Expression.mentioned ++ i.method.elim [] Expression.mentioned ++
    i.retcont.elim [] Target.mentioned ++ i.arguments.flatMap (·.value.mentioned) ++
    i.results.flatMap Target.mentioned

/-- The labels that occur anywhere in a statement. -/
def Statement.mentioned : Statement → List String
  | .instruction i => i.operands.flatMap Expression.mentioned
  | .invocation i => i.mentioned

/-- The labels of a statement that the check looks up. -/
def Statement.checked : Statement → List String
  | .instruction i => i.labels
  | .invocation _ => []

/-- The labels that occur anywhere in a subroutine. -/
def Subroutine.mentioned (s : Subroutine) : List String :=
  s.namespaceKey.elim [] Key.mentioned ++ s.parameters.flatMap (·.target.mentioned) ++
    s.lexicals.flatMap (·.target.mentioned) ++ s.statements.flatMap Statement.mentioned

theorem Target.mentioned_eq (t : Target) : t.mentioned = t.key.elim [] Key.mentioned := by
  obtain ⟨storage, key, flags, namedAs, lexName⟩ := t
  cases key <;> rw [Target.mentioned] <;> rfl

@[simp]
theorem Target.mentioned_ofSymbol (s : Symbol) : (ofSymbol s).mentioned = [] := by
  rw [mentioned_eq]
  rfl

@[simp]
theorem Target.mentioned_register (type : ValueType) (number : Nat) :
    (register type number).mentioned = [] := by
  rw [mentioned_eq]
  rfl

theorem Key.mentionedMore_eq_nil {more : List Expression} (h : ∀ e ∈ more, e.mentioned = []) :
    mentionedMore more = [] := by
  induction more with
  | nil => rw [mentionedMore]
  | cons e rest ih =>
    have hrest := ih fun e he => h e (List.mem_cons_of_mem _ he)
    rw [mentionedMore, h e List.mem_cons_self, hrest, List.append_nil]

/-- A key of strings holds no label. -/
theorem Key.mentioned_ofList?_string (names : List String) :
    (ofList? (names.map .string)).elim [] mentioned = [] := by
  cases names with
  | nil => rfl
  | cons name names =>
    have hmore : mentionedMore (names.map .string) = [] := by
      apply mentionedMore_eq_nil
      intro e he
      obtain ⟨name, -, rfl⟩ := List.mem_map.mp he
      rw [Expression.string, Expression.mentioned]
    show mentioned ⟨.string name, names.map .string⟩ = []
    rw [mentioned, hmore, Expression.string, Expression.mentioned, List.append_nil]

/-! What is built -/

namespace Builder

variable {b : Builder}

/-- What the rules for values make holds no label. -/
theorem Made.mentioned {e : Expression} (h : b.Made e) : e.mentioned = [] := by
  induction h with
  | constant c => rw [Expression.mentioned]
  | register type number => rw [Expression.mentioned, Target.mentioned_register]
  | symbol _ => rw [Expression.mentioned, Target.mentioned_ofSymbol]
  | standIn _ _ _ => rw [Expression.mentioned, Target.mentioned_ofSymbol]
  | keyed _ _ _ _ ihk =>
    rw [Expression.mentioned] at ihk
    rw [Expression.mentioned, Target.mentioned_eq]
    exact ihk
  | key _ _ ihfirst ihmore =>
    rw [Expression.mentioned, Key.mentioned, ihfirst, Key.mentionedMore_eq_nil ihmore,
      List.append_nil]
  | marked _ _ _ ih =>
    rw [Expression.mentioned, Target.mentioned_eq] at ih ⊢
    exact ih

theorem Made.mentioned_target {t : Target} (h : b.Made (.target t)) : t.mentioned = [] := by
  have h := h.mentioned
  rwa [Expression.mentioned] at h

theorem Made.asLabel?_eq_none {e : Expression} (h : b.Made e) : e.asLabel? = none := by
  cases h <;> rfl

theorem MadeMethod.mentioned {e : Expression} (h : b.MadeMethod e) : e.mentioned = [] := by
  cases h with
  | string s => rw [Expression.string, Expression.mentioned]
  | target h _ => exact h.mentioned

/-- An operand is a label, or holds none. -/
theorem MadeSource.mentioned {e : Expression} (h : b.MadeSource e) :
    e.mentioned = e.asLabel?.toList := by
  obtain h | ⟨name, rfl⟩ := h
  · rw [h.mentioned, h.asLabel?_eq_none]
    rfl
  · rw [Expression.mentioned]
    rfl

theorem MadeArguments.mentioned {as : List Argument} (h : b.MadeArguments as) :
    as.flatMap (·.value.mentioned) = [] := by
  rw [List.flatMap_eq_nil_iff]
  intro a ha
  exact (h a ha).mentioned

theorem MadeTargets.mentioned {ts : List Target} (h : b.MadeTargets ts) :
    ts.flatMap Target.mentioned = [] := by
  rw [List.flatMap_eq_nil_iff]
  intro t ht
  exact (h t ht).mentioned_target

theorem MadeCall.mentioned {i : Invocation} (h : b.MadeCall i) : i.mentioned = [] := by
  cases h with
  | sub hcallee has =>
    simp [Invocation.mentioned, Invocation.subCall, Invocation.empty, hcallee.mentioned,
      MadeArguments.mentioned has]
  | method ht hm has =>
    have ht := ht.mentioned
    simp [Invocation.mentioned, Invocation.methodCall, Invocation.empty, ht, hm.mentioned,
      MadeArguments.mentioned has]

/-- The check sees every label of a statement. -/
theorem MadeStatement.mentioned {st : Statement} (h : b.MadeStatement st) :
    st.mentioned = st.checked := by
  cases h with
  | @instruction i h =>
    show i.operands.flatMap Expression.mentioned = i.operands.filterMap Expression.asLabel?
    rw [List.filterMap_eq_flatMap_toList]
    exact List.flatMap_congr fun e he => (h e he).mentioned
  | constantTest p label _ _ _ =>
    simp [Statement.mentioned, Statement.checked, Polarity.variableBranch, Instruction.of,
      Instruction.labels, Expression.mentioned, List.filterMap_cons, Expression.asLabel?]
  -- An invocation mentions no labels, and none are looked for in it.
  | @short i results hi hr =>
    have hi := hi.mentioned
    simp only [Invocation.mentioned, List.append_eq_nil_iff] at hi
    simp [Statement.mentioned, Statement.checked, Invocation.mentioned, hi,
      MadeTargets.mentioned hr]
  | tailcall hi => exact hi.mentioned
  | returns has =>
    simp [Statement.mentioned, Statement.checked, Invocation.mentioned, Invocation.empty,
      MadeArguments.mentioned has]
  | yields has =>
    simp [Statement.mentioned, Statement.checked, Invocation.mentioned, Invocation.empty,
      MadeArguments.mentioned has]

end Builder

/-- A directive of a block adds no label to it. -/
theorem BlockPart.mentioned_put {b : Builder} {part : BlockPart} (h : part.Made b)
    {call : PendingCall} (hcall : call.invocation.mentioned = []) :
    (part.put call).invocation.mentioned = [] := by
  simp only [Invocation.mentioned, List.append_eq_nil_iff] at hcall
  obtain ⟨⟨⟨⟨hcallee, hmethod⟩, hretcont⟩, hargs⟩, hresults⟩ := hcall
  -- Each part fills one place of the invocation, and the others stay without labels.
  cases part with
  | argument a =>
    have ha : a.value.mentioned = [] := Builder.Made.mentioned h
    simp [put, Invocation.mentioned, hcallee, hmethod, hretcont, hargs, hresults, ha]
  | call callee retcont =>
    have hc : (Expression.target callee).mentioned = [] := Builder.Made.mentioned h.1
    have hr : retcont.elim [] Target.mentioned = [] := by
      cases retcont with
      | none => rfl
      | some r => exact (h.2 r rfl).mentioned_target
    simp [put, Invocation.mentioned, hc, hmethod, hr, hargs, hresults]
  | native callee =>
    have hc : (Expression.target callee).mentioned = [] := Builder.Made.mentioned h
    simp [put, Invocation.mentioned, hc, hmethod, hretcont, hargs, hresults]
  | invocant t =>
    have ht : (Expression.target t).mentioned = [] := Builder.Made.mentioned h
    simp [put, Invocation.mentioned, ht, hmethod, hretcont, hargs, hresults]
  | method m =>
    have hm : m.mentioned = [] := Builder.MadeMethod.mentioned h
    simp [put, Invocation.mentioned, hcallee, hm, hretcont, hargs, hresults]
  | result t =>
    have ht : t.mentioned = [] := Builder.Made.mentioned_target h
    simp [put, Invocation.mentioned, hcallee, hmethod, hretcont, hargs, hresults, ht]

/-! Every run -/

/-- The check sees all labels of the subroutine, and the table leads to no place behind its end. -/
structure Subroutine.Charted (s : Subroutine) : Prop where
  namespaceKey : s.namespaceKey.elim [] Key.mentioned = []
  parameters : ∀ p ∈ s.parameters, p.target.mentioned = []
  lexicals : ∀ l ∈ s.lexicals, l.target.mentioned = []
  statements : ∀ st ∈ s.statements, st.mentioned = st.checked
  labels : ∀ entry ∈ s.labels.entries, entry.2 ≤ s.statements.length

namespace Subroutine

variable {s s' : Subroutine}

theorem Charted.congr (h : s.Charted) (hc : s'.content = s.content) : s'.Charted := by
  simp only [content, Content.mk.injEq] at hc
  obtain ⟨hkey, hparameters, hlexicals, hstatements, hlabels⟩ := hc
  refine ⟨?_, ?_, ?_, ?_, ?_⟩
  · rw [hkey]
    exact h.namespaceKey
  · rw [hparameters]
    exact h.parameters
  · rw [hlexicals]
    exact h.lexicals
  · rw [hstatements]
    exact h.statements
  · rw [hlabels, hstatements]
    exact h.labels

theorem Charted.emit (h : s.Charted) {st : Statement} (hst : st.mentioned = st.checked) :
    Charted { s with statements := s.statements ++ [st] } := by
  refine ⟨h.namespaceKey, h.parameters, h.lexicals, ?_, ?_⟩
  · intro st' hst'
    obtain hold | rfl := by simpa using hst'
    · exact h.statements st' hold
    · exact hst
  · intro entry hentry
    have := h.labels entry hentry
    simp only [List.length_append]
    omega

theorem Charted.setLabel (h : s.Charted) (name : String) :
    Charted { s with labels := s.labels.insert name s.statements.length } := by
  refine ⟨h.namespaceKey, h.parameters, h.lexicals, h.statements, ?_⟩
  intro entry hentry
  obtain hold | rfl := Table.mem_insert hentry
  · exact h.labels entry hold
  · exact Nat.le_refl _

/-- The check looks at every label that occurs in the subroutine. -/
theorem Charted.mentioned (h : s.Charted) :
    s.mentioned = s.statements.flatMap Statement.checked := by
  have hparameters : s.parameters.flatMap (·.target.mentioned) = [] :=
    List.flatMap_eq_nil_iff.mpr h.parameters
  have hlexicals : s.lexicals.flatMap (·.target.mentioned) = [] :=
    List.flatMap_eq_nil_iff.mpr h.lexicals
  rw [Subroutine.mentioned, h.namespaceKey, hparameters, hlexicals]
  exact List.flatMap_congr h.statements

end Subroutine

theorem Statement.mentioned_labelled (st : Statement) (label : Option String) :
    (st.labelled label).mentioned = st.mentioned := by
  cases st <;> cases label <;> rfl

theorem Statement.checked_labelled (st : Statement) (label : Option String) :
    (st.labelled label).checked = st.checked := by
  cases st <;> cases label <;> rfl

namespace Builder

/-- The check will see all labels of what was built so far. -/
structure Charted (b : Builder) : Prop where
  closed : ∀ s ∈ b.unit.subroutines, s.Charted
  current : ∀ s, b.current = some s → s.Charted
  namespaceKey : b.unit.namespaceKey.elim [] Key.mentioned = []
  block : ∀ call, b.pendingCall = some call → call.invocation.mentioned = []

namespace Charted

variable {b b' : Builder}

theorem same (h : b.Charted) (hs : b.SameContent b') : b'.Charted := by
  refine ⟨hs.closed ▸ h.closed, ?_, hs.namespaceKey ▸ h.namespaceKey, hs.pendingCall ▸ h.block⟩
  intro s' hs'
  obtain ⟨s, hs, hd⟩ := hs.exists_current hs'
  exact (h.current s hs).congr hd.content

theorem modifySub (h : b.Charted) {f : Subroutine → Subroutine}
    (hf : ∀ s, s.Charted → (f s).Charted) : (b.modifySub f).Charted := by
  refine ⟨h.closed, ?_, h.namespaceKey, h.block⟩
  intro s' hs'
  obtain ⟨s, hs, rfl⟩ := Option.map_eq_some_iff.mp hs'
  exact hf s (h.current s hs)

theorem emit (h : b.Charted) {st : Statement} (hst : st.mentioned = st.checked) :
    (Build.emit st).Leaves b Charted := by
  apply Build.emit_leaves
  intro s hs
  refine ⟨h.closed, ?_, h.namespaceKey, h.block⟩
  rintro _ ⟨⟩
  apply (h.current s hs).emit
  rw [Statement.mentioned_labelled, Statement.checked_labelled, hst]

theorem endCall (h : b.Charted) : Build.endCall.Leaves b Charted := by
  have hreport {b : Builder} (h : b.Charted) (p : Problem) :
      (Build.complain p).Leaves b Charted :=
    fun a b' hrun => h.same (Build.report_sameContent _ _ a b' hrun)
  apply Build.endCall_leaves (hreport h _)
  intro call hcall
  have h' : Charted { b with pendingCall := none } :=
    ⟨h.closed, h.current, h.namespaceKey, nofun⟩
  exact ⟨h'.emit (h.block call hcall), hreport h' _⟩

theorem closeSub (h : b.Charted) : b.closeSub.2.Charted := by
  unfold Builder.closeSub
  split
  next => exact h
  next s hs =>
    refine ⟨?_, nofun, h.namespaceKey, nofun⟩
    intro s' hs'
    obtain hold | hnew := List.mem_append.mp hs'
    · exact h.closed s' hold
    · obtain rfl := List.mem_singleton.mp hnew
      exact h.current s' hs

theorem openSub (h : b.Charted) (name : String) : (b.openSub name).2.Charted := by
  have hclosed := h.closeSub
  refine ⟨hclosed.closed, ?_, hclosed.namespaceKey, hclosed.block⟩
  rintro _ ⟨⟩
  exact ⟨hclosed.namespaceKey, nofun, nofun, nofun, nofun⟩

end Charted

theorem charted_new (o : BuildOptions) : (new o).Charted := ⟨nofun, nofun, rfl, nofun⟩

end Builder

instance : Builder.Kept fun _ b => b.Charted where
  same hs h := h.same hs
  emit h hst := h.emit hst.mentioned
  addParameter flags namedAs invocantType h _ _ := by
    apply h.modifySub
    intro s hs
    refine ⟨hs.namespaceKey, ?_, hs.lexicals, hs.statements, hs.labels⟩
    intro p hp
    obtain hold | rfl := by simpa using hp
    · exact hs.parameters p hold
    · rw [Target.mentioned_eq]
      rfl
  addLexical {b t} name h ht _ := by
    apply h.modifySub
    intro s hs
    refine ⟨hs.namespaceKey, hs.parameters, ?_, hs.statements, hs.labels⟩
    intro l hl
    obtain hold | rfl := by simpa using hl
    · exact hs.lexicals l hold
    · have ht := ht.mentioned_target
      rw [Target.mentioned_eq] at ht ⊢
      exact ht
  setLabel name h := by
    have h' := h.modifySub (f := fun s =>
      { s with labels := s.labels.insert name s.statements.length }) fun s hs => hs.setLabel name
    exact ⟨h'.closed, h'.current, h'.namespaceKey, h'.block⟩
  beginBlock k h := by
    refine ⟨?_, ?_, ?_, ?_⟩
    · cases k <;> exact h.closed
    · cases k <;> exact h.current
    · cases k <;> exact h.namespaceKey
    · cases k <;> (rintro _ ⟨⟩; rfl)
  leaveBlock h := h
  changeCall {b k part} h _ hm := by
    apply Build.changeCall_leaves
    intro call hcall
    refine ⟨h.closed, h.current, h.namespaceKey, ?_⟩
    rintro _ ⟨⟩
    exact BlockPart.mentioned_put hm (h.block call hcall)
  endCall h := h.endCall
  openSub name h := h.openSub name
  closeSub h := h.closeSub
  setNamespace names h := ⟨h.closed, h.current, Key.mentioned_ofList?_string names, h.block⟩

/-! The check -/

namespace Subroutine

variable {s : Subroutine}

/-- No label of the subroutine stands beyond its end. -/
theorem Charted.strayLabels (h : s.Charted) : s.strayLabels = [] := by
  unfold Subroutine.strayLabels
  rw [List.filterMap_eq_nil_iff]
  intro entry hentry
  exact if_neg (Nat.not_lt.mpr (h.labels entry hentry))

theorem mem_unknownLabels {fault : LabelFault} {i : Nat} {st : Statement} :
    fault ∈ s.unknownLabels i st ↔
      ∃ l ∈ st.checked, s.labels.get? l = none ∧ fault = .undefined s.name l i := by
  cases st with
  | instruction instr =>
    simp only [unknownLabels, Statement.checked, List.mem_map, List.mem_filter, Table.contains,
      Bool.not_eq_true', Option.isSome_eq_false_iff, Option.isNone_iff_eq_none, and_assoc]
    exact exists_congr fun l => and_congr_right fun _ => and_congr_right fun _ => eq_comm
  | invocation _ => simp [unknownLabels, Statement.checked]

/-- The faults of a subroutine are the labels of its instructions that it does not define. -/
theorem Charted.mem_labelFaults (h : s.Charted) {fault : LabelFault} :
    fault ∈ s.labelFaults ↔ ∃ i st, s.statements[i]? = some st ∧
      ∃ l ∈ st.checked, s.labels.get? l = none ∧ fault = .undefined s.name l i := by
  rw [labelFaults, h.strayLabels, List.nil_append, List.mem_flatten]
  constructor
  · rintro ⟨faults, hfaults, hfault⟩
    obtain ⟨i, hi, rfl⟩ := List.mem_mapIdx.mp hfaults
    exact ⟨i, s.statements[i], List.getElem?_eq_getElem hi, mem_unknownLabels.mp hfault⟩
  · rintro ⟨i, st, hst, hfault⟩
    obtain ⟨hi, rfl⟩ := List.getElem?_eq_some_iff.mp hst
    exact ⟨_, List.mem_mapIdx.mpr ⟨i, hi, rfl⟩, mem_unknownLabels.mpr hfault⟩

/-- If the check finds nothing, each label that occurs has its entry, at the end at the latest. -/
theorem Charted.get?_of_mentioned (h : s.Charted) (hnone : s.labelFaults = []) {l : String}
    (hl : l ∈ s.mentioned) : ∃ i, s.labels.get? l = some i ∧ i ≤ s.statements.length := by
  rw [h.mentioned, List.mem_flatMap] at hl
  obtain ⟨st, hst, hl⟩ := hl
  obtain ⟨i, hi, rfl⟩ := List.getElem_of_mem hst
  cases hget : s.labels.get? l with
  | none =>
    have hfault : LabelFault.undefined s.name l i ∈ s.labelFaults :=
      h.mem_labelFaults.mpr ⟨i, _, List.getElem?_eq_getElem hi, l, hl, hget, rfl⟩
    rw [hnone] at hfault
    cases hfault
  | some index => exact ⟨index, rfl, h.labels _ (Table.mem_of_get? hget)⟩

end Subroutine

theorem Statement.mem_checked {st : Statement} {l : String} :
    l ∈ st.checked ↔ ∃ i, st = .instruction i ∧ .label l ∈ i.operands := by
  cases st with
  | instruction i =>
    have hlabel (e : Expression) : e.asLabel? = some l ↔ e = .label l := by
      cases e <;> simp [Expression.asLabel?]
    simp [checked, Instruction.labels, List.mem_filterMap, hlabel]
  | invocation i => simp [checked]

/-- The check of labels misses nothing and reports nothing else: without faults, every label that
occurs anywhere in a subroutine has an entry there that stands at a statement or at the end; and
every fault is a label among the operands of an instruction that its subroutine does not define. -/
theorem compile_labels {source : String} {o : BuildOptions} {c : Compiled}
    (h : compile source o = .ok c) :
    (o.verifyLabels = true → c.labelFaults = [] → ∀ s ∈ c.unit.subroutines, ∀ l ∈ s.mentioned,
      ∃ i, s.labels.get? l = some i ∧ i ≤ s.statements.length) ∧
    ∀ fault ∈ c.labelFaults, ∃ s ∈ c.unit.subroutines, ∃ l i instr,
      fault = .undefined s.name l i ∧ s.statements[i]? = some (.instruction instr) ∧
      .label l ∈ instr.operands ∧ s.labels.get? l = none := by
  obtain ⟨b, hb, rfl⟩ := compile_kept (fun _ b => b.Charted) (Builder.charted_new o) h
  have hcharted : ∀ s ∈ b.finish.1.subroutines, s.Charted := hb.closeSub.closed
  constructor
  · intro ho hnone s hs l hl
    simp only [ho, if_true, CompilationUnit.labelFaults, List.flatMap_eq_nil_iff] at hnone
    exact (hcharted s hs).get?_of_mentioned (hnone s hs) hl
  · intro fault hfault
    dsimp only at hfault
    split at hfault
    next =>
      obtain ⟨s, hs, hfault⟩ := List.mem_flatMap.mp hfault
      obtain ⟨i, st, hst, l, hl, hget, heq⟩ := (hcharted s hs).mem_labelFaults.mp hfault
      obtain ⟨instr, rfl, hlabel⟩ := Statement.mem_checked.mp hl
      exact ⟨s, hs, l, i, instr, heq, hst, hlabel, hget⟩
    next => cases hfault

/-- A jump back to a label in front of it. -/
theorem compile_labels_goto : ∃ c s, compile ".sub main\nagain:\ngoto again\n.end\n" .standard =
      .ok c ∧ c.labelFaults = [] ∧ s ∈ c.unit.subroutines ∧ "again" ∈ s.mentioned ∧
      (∃ i, s.labels.get? "again" = some i ∧ i ≤ s.statements.length) ∧
      ∀ fault ∈ c.labelFaults, ∃ s ∈ c.unit.subroutines, ∃ l i instr,
        fault = .undefined s.name l i ∧ s.statements[i]? = some (.instruction instr) ∧
        .label l ∈ instr.operands ∧ s.labels.get? l = none := by
  have htest : compiles ".sub main\nagain:\ngoto again\n.end\n" (fun c =>
      c.labelFaults.isEmpty && c.unit.subroutines.any (·.mentioned.contains "again")) = true := by
    decide +kernel
  obtain ⟨c, hc, htest⟩ := exists_of_compiles htest
  obtain ⟨hnone, hany⟩ := Bool.and_eq_true_iff.mp htest
  obtain ⟨s, hs, hmem⟩ := List.any_eq_true.mp hany
  replace hnone := List.isEmpty_iff.mp hnone
  have hl := List.contains_iff_mem.mp hmem
  have hlabels := compile_labels hc
  exact ⟨c, s, hc, hnone, hs, hl, hlabels.1 rfl hnone s hs _ hl, hlabels.2⟩

end PirFrontend
