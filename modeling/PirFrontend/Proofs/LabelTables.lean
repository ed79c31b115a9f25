import PirFrontend.Proofs.Commands
import PirFrontend.Proofs.Tables

/-!
Label tables. A label is entered in the table when it is read, and reaches a statement when the
next one is emitted; the builder keeps it waiting in between. In every state the table and the
statements agree.
-/
namespace PirFrontend

namespace Subroutine

/-- The label that was entered last for an index. Labels stand in the table in the order in which
they were read. -/
def lastLabelAt (s : Subroutine) (index : Nat) : Option String :=
  (s.labels.entries.filter (·.2 == index)).getLast?.map (·.1)

/-- The label table agrees with the statements: each statement has the label that was entered last
for it. -/
structure LabelsAgree (s : Subroutine) : Prop where
  nodup : (s.labels.entries.map (·.1)).Nodup
  bounded : ∀ entry ∈ s.labels.entries, entry.2 ≤ s.statements.length
  carried : ∀ (i : Nat) (h : i < s.statements.length), s.statements[i].label = s.lastLabelAt i

theorem labelsAgree_empty (name : String) (key : Option Key) :
    LabelsAgree { empty name with namespaceKey := key } :=
  ⟨.nil, nofun, nofun⟩

end Subroutine

namespace Builder

/-- The tables agree with the statements, and the label that was entered last for the next
statement is the one that waits for it. -/
structure LabelsAgree (b : Builder) : Prop where
  closed : ∀ s ∈ b.unit.subroutines, s.LabelsAgree
  current : ∀ s, b.current = some s → s.LabelsAgree
  waiting : b.pendingLabel = b.current.bind fun s => s.lastLabelAt s.statements.length

end Builder

theorem Statement.label_labelled (st : Statement) (label : Option String) :
    (st.labelled label).label = label.or st.label := by
  cases st <;> cases label <;> rfl

namespace Subroutine

variable {s : Subroutine}

theorem lastLabelAt_of_gt (h : s.LabelsAgree) {i : Nat} (hi : s.statements.length < i) :
    s.lastLabelAt i = none := by
  have hnil : s.labels.entries.filter (·.2 == i) = [] := by
    rw [List.filter_eq_nil_iff]
    intro entry hentry
    have := h.bounded entry hentry
    simp only [beq_iff_eq]
    omega
  rw [lastLabelAt, hnil]
  rfl

theorem mem_of_lastLabelAt {i : Nat} {l : String} (h : s.lastLabelAt i = some l) :
    (l, i) ∈ s.labels.entries := by
  obtain ⟨entry, hlast, rfl⟩ := Option.map_eq_some_iff.mp h
  have hmem := List.mem_of_getLast? hlast
  rw [List.mem_filter, beq_iff_eq] at hmem
  rw [← hmem.2]
  exact hmem.1

theorem lastLabelAt_ne_none {i : Nat} {l : String} (h : (l, i) ∈ s.labels.entries) :
    s.lastLabelAt i ≠ none := by
  have hmem : (l, i) ∈ s.labels.entries.filter (·.2 == i) := by
    simpa using h
  rw [lastLabelAt, Ne, Option.map_eq_none_iff, List.getLast?_eq_none_iff]
  exact List.ne_nil_of_mem hmem

/-- A new label is the last one for the next statement, and changes nothing for the others. -/
theorem LabelsAgree.label (h : s.LabelsAgree) {name : String}
    (hnew : s.labels.contains name = false) :
    LabelsAgree { s with labels := s.labels.insert name s.statements.length } ∧
      lastLabelAt { s with labels := s.labels.insert name s.statements.length }
        s.statements.length = some name := by
  have hentries := Table.entries_insert_of_new hnew s.statements.length
  -- The new entry is the last one, and the only one at the end of the statements.
  have hlast (i : Nat) :
      lastLabelAt { s with labels := s.labels.insert name s.statements.length } i =
        if i = s.statements.length then some name else s.lastLabelAt i := by
    simp only [lastLabelAt, hentries, List.filter_append]
    by_cases hi : i = s.statements.length
    · simp [hi]
    · have hne : s.statements.length ≠ i := Ne.symm hi
      simp [hi, hne]
  refine ⟨⟨?_, ?_, ?_⟩, ?_⟩
  · rw [hentries, List.map_append, List.nodup_append]
    refine ⟨h.nodup, by simp, ?_⟩
    intro l hl m hm
    obtain ⟨entry, hentry, rfl⟩ := List.mem_map.mp hl
    obtain rfl : m = name := by simpa using hm
    exact Table.get?_eq_none hnew entry hentry
  · intro entry hentry
    rw [hentries, List.mem_append, List.mem_singleton] at hentry
    obtain hold | rfl := hentry
    · exact h.bounded entry hold
    · exact Nat.le_refl _
  · intro i hi
    rw [hlast, if_neg (Nat.ne_of_lt hi)]
    exact h.carried i hi
  · rw [hlast, if_pos rfl]

/-- The next statement takes the last label entered for it. -/
theorem LabelsAgree.emit (h : s.LabelsAgree) {st : Statement}
    (hst : st.label = s.lastLabelAt s.statements.length) :
    LabelsAgree { s with statements := s.statements ++ [st] } := by
  refine ⟨h.nodup, ?_, ?_⟩
  · intro entry hentry
    have := h.bounded entry hentry
    rw [List.length_append]
    omega
  · intro i hi
    rw [List.length_append, List.length_singleton] at hi
    show (s.statements ++ [st])[i].label = s.lastLabelAt i
    by_cases hlt : i < s.statements.length
    · rw [List.getElem_append_left hlt]
      exact h.carried i hlt
    · obtain rfl : i = s.statements.length := by omega
      rw [List.getElem_append_right (Nat.le_refl _)]
      simpa using hst

theorem labelsAgree_congr {t : Subroutine} (h : s.LabelsAgree)
    (hstatements : t.statements = s.statements) (hlabels : t.labels = s.labels) :
    t.LabelsAgree := by
  have hlast (i : Nat) : t.lastLabelAt i = s.lastLabelAt i := by
    rw [lastLabelAt, hlabels]
    rfl
  refine ⟨by rw [hlabels]; exact h.nodup, by rw [hlabels, hstatements]; exact h.bounded, ?_⟩
  intro i hi
  rw [hlast, ← h.carried i (by rwa [← hstatements])]
  simp only [hstatements]

end Subroutine

namespace Builder

variable {b c : Builder}

theorem Move.labelsAgree {supplied : String → Prop} (h : b.Move supplied c) (hb : b.LabelsAgree) :
    c.LabelsAgree := by
  cases h with
  | report => exact ⟨hb.closed, hb.current, hb.waiting⟩
  -- Only here a label comes to wait, and it stands at the end of the statements.
  | label name hs hnew =>
    have hlabel := (hb.current _ hs).label hnew
    refine ⟨hb.closed, ?_, hlabel.2.symm⟩
    rintro _ ⟨⟩
    exact hlabel.1
  | spend _ hs =>
    refine ⟨hb.closed, hb.current, ?_⟩
    show none = b.current.bind _
    rw [hs]
    rfl
  | instruction => exact ⟨hb.closed, hb.current, hb.waiting⟩
  | call => exact ⟨hb.closed, hb.current, hb.waiting⟩
  | @declare s s' hs hgains =>
    refine ⟨hb.closed, ?_, ?_⟩
    · rintro _ ⟨⟩
      exact Subroutine.labelsAgree_congr (hb.current s hs) hgains.statements hgains.labels
    · have hwaiting := hb.waiting
      rw [hs] at hwaiting
      show b.pendingLabel = s'.lastLabelAt s'.statements.length
      rw [hwaiting, hgains.statements, Subroutine.lastLabelAt, hgains.labels]
      rfl
  | unit u hu =>
    refine ⟨?_, hb.current, hb.waiting⟩
    show ∀ s ∈ u.subroutines, s.LabelsAgree
    rw [hu.subroutines]
    exact hb.closed

theorem Moves.labelsAgree {supplied : String → Prop} (h : b.Moves supplied c)
    (hb : b.LabelsAgree) : c.LabelsAgree := by
  induction h with
  | refl => exact hb
  | tail _ hmove ih => exact hmove.labelsAgree ih

theorem Emits.labelsAgree (h : b.Emits (fun _ => False) c) (hb : b.LabelsAgree) :
    c.LabelsAgree := by
  cases h with
  | @emit s st _ hs hst =>
    have hagree := hb.current s hs
    have hwaiting := hb.waiting
    rw [hs, Option.bind_some] at hwaiting
    have hnone : st.label = none := Option.eq_none_iff_forall_ne_some.mpr hst
    have hlabel : (st.labelled b.pendingLabel).label = s.lastLabelAt s.statements.length := by
      rw [Statement.label_labelled, hnone, Option.or_none, hwaiting]
    have hnew := hagree.emit hlabel
    refine ⟨hb.closed, ?_, ?_⟩
    · rintro _ ⟨⟩
      exact hnew
    · exact (Subroutine.lastLabelAt_of_gt hagree (by simp)).symm

theorem labelsAgree_closeSub (hb : b.LabelsAgree) : b.closeSub.2.LabelsAgree := by
  unfold closeSub
  split
  next => exact hb
  next s hs =>
    refine ⟨?_, nofun, rfl⟩
    intro t ht
    rw [List.mem_append, List.mem_singleton] at ht
    obtain hold | rfl := ht
    · exact hb.closed t hold
    · exact hb.current t hs

theorem labelsAgree_openSub (hb : b.LabelsAgree) (name : String) :
    (b.openSub name).2.LabelsAgree := by
  have hclosed := labelsAgree_closeSub hb
  refine ⟨hclosed.closed, ?_, ?_⟩
  · rintro _ ⟨⟩
    exact Subroutine.labelsAgree_empty _ _
  · show b.closeSub.2.pendingLabel = none
    rw [hclosed.waiting, current_closeSub]
    rfl

theorem Stays.labelsAgree {r : Except Fatal Reply × Builder} (h : b.Stays (fun _ => False) r)
    (hb : b.LabelsAgree) : r.2.LabelsAgree := by
  cases h with
  | moves _ h => exact h.labelsAgree hb
  | emits _ h he => exact he.labelsAgree (h.labelsAgree hb)
  | line _ h =>
    have hmoved := h.labelsAgree hb
    exact ⟨hmoved.closed, hmoved.current, hmoved.waiting⟩

theorem Step.labelsAgree {r : Except Fatal Reply × Builder} (h : b.Step (fun _ => False) r)
    (hb : b.LabelsAgree) : r.2.LabelsAgree := by
  cases h with
  | stays h => exact h.labelsAgree hb
  | opens _ name => exact labelsAgree_openSub hb name
  | closes => exact labelsAgree_closeSub hb

end Builder

/-- The invocations that the command hands in carry no labels of their own. -/
def Command.Unlabelled (command : Command) : Prop := command.Supplies fun _ => False

theorem Builder.labelsAgree_performAll {b : Builder} {script : List Command}
    (hscript : ∀ command ∈ script, command.Unlabelled) (hcollects : b.Collects fun _ => False)
    (hb : b.LabelsAgree) : (b.performAll script).LabelsAgree := by
  induction script generalizing b with
  | nil => exact hb
  | cons command script ih =>
    have hstep := Command.step (hscript command List.mem_cons_self) hcollects
    exact ih (fun c hc => hscript c (List.mem_cons_of_mem _ hc)) (hstep.collects hcollects)
      (hstep.labelsAgree hb)

/-- In every state that a script reaches, each label stands at a statement or behind the last one,
the table knows the label of every statement, and a statement that is named in the table has the
label that was entered last for it. -/
theorem performAll_labels (options : BuildOptions) (script : List Command) (s : Subroutine)
    (hscript : ∀ command ∈ script, command.Unlabelled)
    (hs : s ∈ ((Builder.new options).performAll script).unit.subroutines ∨
      ((Builder.new options).performAll script).current = some s) :
    (∀ l i, s.labels.get? l = some i → i ≤ s.statements.length) ∧
    (∀ i (hi : i < s.statements.length) l, s.statements[i].label = some l →
      s.labels.get? l = some i) ∧
    (∀ l i (hi : i < s.statements.length), s.labels.get? l = some i →
      s.statements[i].label = s.lastLabelAt i ∧ s.lastLabelAt i ≠ none) := by
  have hnew : (Builder.new options).LabelsAgree := ⟨nofun, nofun, rfl⟩
  have hagree := Builder.labelsAgree_performAll hscript (Builder.collects_new options) hnew
  have hlabels : s.LabelsAgree := by
    rcases hs with hclosed | hopen
    · exact hagree.closed s hclosed
    · exact hagree.current s hopen
  refine ⟨?_, ?_, ?_⟩
  · intro l i hget
    exact hlabels.bounded _ (Table.mem_of_get? hget)
  · intro i hi l hlabel
    rw [hlabels.carried i hi] at hlabel
    exact Table.get?_of_mem hlabels.nodup (Subroutine.mem_of_lastLabelAt hlabel)
  · intro l i hi hget
    exact ⟨hlabels.carried i hi, Subroutine.lastLabelAt_ne_none (Table.mem_of_get? hget)⟩

/-- Two labels in front of one branch, and an invocation behind it. -/
theorem performAll_labels_stacked :
    let script : List Command := [.openSub "main", .setLabel "first", .setLabel "second",
      .gotoLabel "first", .shortInvocation (.empty .pcc) []]
    ∃ s, ((Builder.new .standard).performAll script).current = some s ∧
      (∀ command ∈ script, command.Unlabelled) ∧ s.statements.length = 2 ∧
      s.labels.get? "first" = some 0 ∧ s.lastLabelAt 0 = some "second" ∧
      (∀ l i, s.labels.get? l = some i → i ≤ s.statements.length) ∧
      (∀ i (hi : i < s.statements.length) l, s.statements[i].label = some l →
        s.labels.get? l = some i) ∧
      (∀ l i (hi : i < s.statements.length), s.labels.get? l = some i →
        s.statements[i].label = s.lastLabelAt i ∧ s.lastLabelAt i ≠ none) := by
  intro script
  have hscript : ∀ command ∈ script, command.Unlabelled := by
    simp [script, Command.Unlabelled, Command.Supplies, Supplied, Invocation.empty]
  refine ⟨_, rfl, hscript, rfl, rfl, rfl, ?_⟩
  exact performAll_labels .standard script _ hscript (.inr rfl)

end PirFrontend
