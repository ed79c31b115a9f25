import PirFrontend.Proofs.Commands

/-!
The builder only grows. A command leaves the closed subroutines as they are and closes at most one
more; it adds at most one statement to a subroutine that stays open, at its end; and a declaration
that stands keeps its value and its place, in the subroutine as in the unit.
-/
namespace PirFrontend

/-- The subroutine has these statements more, and nothing that was entered in it is lost, changed
or moved. -/
structure Subroutine.Grows (added : List Statement) (s s' : Subroutine) : Prop where
  name : s'.name = s.name
  statements : s'.statements = s.statements ++ added
  parameters : s.parameters <+: s'.parameters
  lexicals : s.lexicals <+: s'.lexicals
  constants : s.constants.entries <+: s'.constants.entries
  symbols : s.symbols.symbols <+: s'.symbols.symbols
  labels : s.labels.entries <+: s'.labels.entries

namespace Subroutine

variable {s s' s'' : Subroutine} {added more : List Statement}

theorem Gains.grows (h : s.Gains s') : s.Grows [] s' where
  name := h.name
  statements := by rw [h.statements, List.append_nil]
  parameters := h.parameters
  lexicals := h.lexicals
  constants := h.constants
  symbols := h.symbols
  labels := h.labels ▸ List.prefix_rfl

theorem Grows.trans (h : s.Grows added s') (h' : s'.Grows more s'') :
    s.Grows (added ++ more) s'' where
  name := h'.name.trans h.name
  statements := by rw [h'.statements, h.statements, List.append_assoc]
  parameters := h.parameters.trans h'.parameters
  lexicals := h.lexicals.trans h'.lexicals
  constants := h.constants.trans h'.constants
  symbols := h.symbols.trans h'.symbols
  labels := h.labels.trans h'.labels

theorem grows_label {name : String} (h : s.labels.contains name = false) (index : Nat) :
    s.Grows [] { s with labels := s.labels.insert name index } :=
  { (Gains.refl s).grows with labels := Table.prefix_insert h index }

theorem grows_statement (s : Subroutine) (st : Statement) :
    s.Grows [st] { s with statements := s.statements ++ [st] } :=
  { (Gains.refl s).grows with statements := rfl }

end Subroutine

namespace CompilationUnit

variable {u u' u'' : CompilationUnit}

theorem Gains.trans (h : u.Gains u') (h' : u'.Gains u'') : u.Gains u'' where
  subroutines := h'.subroutines.trans h.subroutines
  constants := h.constants.trans h'.constants
  globalConstants := h.globalConstants.trans h'.globalConstants

theorem Gains.refl (u : CompilationUnit) : u.Gains u := .header u _ _ _ _

end CompilationUnit

namespace Builder

/-- No subroutine is closed, and the open one stays open with these statements more. -/
structure Extends (added : List Statement) (b c : Builder) : Prop where
  unit : b.unit.Gains c.unit
  current : ∀ s, b.current = some s → ∃ s', c.current = some s' ∧ s.Grows added s'

variable {supplied : String → Prop} {b c d : Builder} {added more : List Statement}

theorem extends_of_eq (hunit : c.unit = b.unit) (hcurrent : c.current = b.current) :
    b.Extends [] c := by
  refine ⟨hunit ▸ .refl _, ?_⟩
  intro s hs
  exact ⟨s, hcurrent.trans hs, (Subroutine.Gains.refl s).grows⟩

theorem Extends.trans (h : b.Extends added c) (h' : c.Extends more d) :
    b.Extends (added ++ more) d := by
  refine ⟨h.unit.trans h'.unit, ?_⟩
  intro s hs
  obtain ⟨s', hs', hgrows⟩ := h.current s hs
  obtain ⟨s'', hs'', hgrows'⟩ := h'.current s' hs'
  exact ⟨s'', hs'', hgrows.trans hgrows'⟩

/-- Another body for the open subroutine. -/
theorem extends_current {s s' : Subroutine} {c : Builder} (hs : b.current = some s)
    (hgrows : s.Grows added s') (hunit : c.unit = b.unit) (hcurrent : c.current = some s') :
    b.Extends added c := by
  refine ⟨hunit ▸ .refl _, ?_⟩
  intro t ht
  obtain rfl : s = t := Option.some.inj (hs.symm.trans ht)
  exact ⟨s', hcurrent, hgrows⟩

theorem Move.extends (h : b.Move supplied c) : b.Extends [] c := by
  cases h with
  | report => exact extends_of_eq rfl rfl
  | label name hs hnew => exact extends_current hs (Subroutine.grows_label hnew _) rfl rfl
  | spend => exact extends_of_eq rfl rfl
  | instruction => exact extends_of_eq rfl rfl
  | call => exact extends_of_eq rfl rfl
  | declare hs hgains => exact extends_current hs hgains.grows rfl rfl
  | unit u hgains => exact ⟨hgains, (extends_of_eq (b := b) rfl rfl).current⟩

theorem Moves.extends (h : b.Moves supplied c) : b.Extends [] c := by
  induction h with
  | refl => exact extends_of_eq rfl rfl
  | tail _ hmove ih => exact ih.trans hmove.extends

theorem Emits.extends (h : b.Emits supplied c) : ∃ st, b.Extends [st] c := by
  cases h with
  | emit st _ hs => exact ⟨_, extends_current hs (Subroutine.grows_statement _ _) rfl rfl⟩

/-- The closed subroutines are the old ones, and the one that was open stands behind them. -/
structure Closes (s : Subroutine) (b c : Builder) : Prop where
  current : b.current = some s
  subroutines : c.unit.subroutines = b.unit.subroutines ++ [s]
  constants : c.unit.constants = b.unit.constants
  globalConstants : c.unit.globalConstants = b.unit.globalConstants

theorem closes_closeSub {s : Subroutine} (hs : b.current = some s) : b.Closes s b.closeSub.2 := by
  unfold closeSub
  split
  next hnone =>
    rw [hs] at hnone
    cases hnone
  next t ht =>
    obtain rfl : s = t := Option.some.inj (hs.symm.trans ht)
    exact ⟨hs, rfl, rfl, rfl⟩

theorem Stays.extends {r : Except Fatal Reply × Builder} (h : b.Stays supplied r) :
    ∃ added, added.length ≤ 1 ∧ b.Extends added r.2 := by
  cases h with
  | moves _ hmoves => exact ⟨[], Nat.zero_le 1, hmoves.extends⟩
  | emits _ hmoves hemits =>
    obtain ⟨st, hst⟩ := hemits.extends
    exact ⟨[st], Nat.le_refl 1, hmoves.extends.trans hst⟩
  | line _ hmoves =>
    have hmoved := hmoves.extends
    exact ⟨[], Nat.zero_le 1, hmoved.unit, hmoved.current⟩

/-- Either the open subroutine stays, with at most one statement more, or it is closed. -/
theorem Step.extends_or_closes {r : Except Fatal Reply × Builder} (h : b.Step supplied r) :
    (∃ added, added.length ≤ 1 ∧ b.Extends added r.2) ∨ ∃ s, b.Closes s r.2 := by
  cases h with
  | stays h => exact .inl h.extends
  | opens _ name =>
    cases hs : b.current with
    | none =>
      -- Where nothing was open, the new subroutine takes the place of none.
      refine .inl ⟨[], Nat.zero_le 1, ?_, ?_⟩
      · show b.unit.Gains b.closeSub.2.unit
        rw [closeSub_of_none hs]
        exact .refl _
      · rw [hs]
        nofun
    | some s =>
      have hcloses := closes_closeSub hs
      exact .inr ⟨s, hcloses.current, hcloses.subroutines, hcloses.constants,
        hcloses.globalConstants⟩
  | closes =>
    cases hs : b.current with
    | none =>
      refine .inl ⟨[], Nat.zero_le 1, ?_⟩
      rw [closeSub_of_none hs]
      exact extends_of_eq rfl rfl
    | some s => exact .inr ⟨s, closes_closeSub hs⟩

/-- Over a whole script the unit gets more subroutines and constants, and keeps those it has. -/
theorem unit_performAll (b : Builder) (script : List Command) :
    b.unit.subroutines <+: (b.performAll script).unit.subroutines ∧
    b.unit.constants.entries <+: (b.performAll script).unit.constants.entries ∧
    b.unit.globalConstants.entries <+: (b.performAll script).unit.globalConstants.entries := by
  induction script generalizing b with
  | nil => exact ⟨List.prefix_rfl, List.prefix_rfl, List.prefix_rfl⟩
  | cons command script ih =>
    obtain ⟨hsubs, hconstants, hglobals⟩ := ih (b.perform command).2
    obtain ⟨added, -, hextends⟩ | ⟨s, hcloses⟩ := (command.step_any b).extends_or_closes
    · rw [hextends.unit.subroutines] at hsubs
      exact ⟨hsubs, hextends.unit.constants.trans hconstants,
        hextends.unit.globalConstants.trans hglobals⟩
    · rw [hcloses.constants] at hconstants
      rw [hcloses.globalConstants] at hglobals
      rw [hcloses.subroutines] at hsubs
      exact ⟨(List.prefix_append _ _).trans hsubs, hconstants, hglobals⟩

end Builder

/-- Whatever a command does, and however it ends: the closed subroutines stay as they are, and at
most the open one is closed behind them. If it stays open, it has at most one statement more, at
its end, and keeps what was entered in it. The constants of the unit keep their places too. -/
theorem perform_grows (b : Builder) (command : Command) :
    let c := (b.perform command).2
    (c.unit.subroutines = b.unit.subroutines ∨
      ∃ s, b.current = some s ∧ c.unit.subroutines = b.unit.subroutines ++ [s]) ∧
    (∀ s, b.current = some s → c.unit.subroutines = b.unit.subroutines →
      ∃ s' added, c.current = some s' ∧ added.length ≤ 1 ∧ s.Grows added s') ∧
    b.unit.constants.entries <+: c.unit.constants.entries ∧
    b.unit.globalConstants.entries <+: c.unit.globalConstants.entries := by
  intro c
  obtain ⟨added, hadded, hextends⟩ | ⟨s, hcloses⟩ := (command.step_any b).extends_or_closes
  · refine ⟨.inl hextends.unit.subroutines, ?_, hextends.unit.constants,
      hextends.unit.globalConstants⟩
    intro s hs _
    obtain ⟨s', hs', hgrows⟩ := hextends.current s hs
    exact ⟨s', added, hs', hadded, hgrows⟩
  · refine ⟨.inr ⟨s, hcloses.current, hcloses.subroutines⟩, ?_,
      hcloses.constants ▸ List.prefix_rfl, hcloses.globalConstants ▸ List.prefix_rfl⟩
    -- A list with one more entry is another list.
    intro t _ hsame
    rw [hcloses.subroutines] at hsame
    simp at hsame

/-- A branch behind a label. -/
theorem perform_grows_goto :
    let b := (Builder.new .standard).performAll [.openSub "main", .setLabel "first"]
    let c := (b.perform (.gotoLabel "first")).2
    ∃ s s' added, b.current = some s ∧ c.current = some s' ∧ added.length = 1 ∧
      s.Grows added s' := by
  intro b c
  have hgrows := (perform_grows b (.gotoLabel "first")).2.1 _ rfl rfl
  obtain ⟨s', added, hs', -, hgrows⟩ := hgrows
  refine ⟨_, s', added, rfl, hs', ?_, hgrows⟩
  cases hs'
  have hstatements := congrArg List.length hgrows.statements
  simpa using hstatements.symm

end PirFrontend
