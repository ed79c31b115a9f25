import Mathlib.Logic.Function.Iterate
import PirFrontend.Proofs.Outcomes

/-!
Reading ends. The loops of the grammar, and the rule that contains itself, check that each round
has left less to read than there was before. Without the check they are the same: after as many
rounds as there is left to read it does not matter what is put for the others, for none is run.
-/
namespace PirFrontend

open PirFrontend.Parser (Place)

/-! Recursion without a check -/

namespace Act

variable {ε α β : Type}

/-- A loop that checks nothing: one round, and the rest of the loop if the round says so. -/
def again (step : β → Act ε (β × Bool)) (rest : β → Act ε β) (b : β) : Act ε β := do
  let (b, more) ← step b
  if more then rest b else pure b

/-- The action is a recursion that ends: as many rounds as there is left to read, and one more, are
all of it, whatever is put for the rounds behind them. -/
def Unrolls (x : Act ε α) (round : (β → Act ε α) → β → Act ε α) (b : β) : Prop :=
  ∀ s rest, (round^[s.size + 1] rest b).run s = x.run s

/-- A round that asks for another one has left less to read. -/
def Progresses (step : β → Act ε (β × Bool)) : Prop :=
  ∀ b b' s s', (step b).run s = (.ok (b', true), s') → s'.size < s.size

variable [OfFatal ε]

/-- A loop that makes progress is never stopped by the check. -/
theorem run_iterate {step : β → Act ε (β × Bool)} (h : Progresses step) (b : β) (s : Session) :
    (iterate step b).run s = (again step (iterate step) b).run s := by
  show iterate step b s = _
  rw [iterate, again]
  cases hr : (step b).run s with
  | mk r s' =>
    have hstep : step b s = (r, s') := hr
    rw [hstep]
    obtain e | ⟨b', _ | _⟩ := r
    · rw [run_bind_error hr]
    · rw [run_bind_ok hr]
      rfl
    · rw [run_bind_ok hr]
      exact if_pos (h b b' s s' hr)

theorem iterate_unrolls {step : β → Act ε (β × Bool)} (h : Progresses step) (b : β) :
    (iterate step b).Unrolls (again step) b := by
  intro s rest
  suffices hall : ∀ n s b, s.size < n →
      ((again step)^[n] rest b).run s = (iterate step b).run s from
    hall _ s b (Nat.lt_succ_self _)
  intro n
  induction n with
  | zero => exact fun s b hs => absurd hs (Nat.not_lt_zero _)
  | succ n ih =>
    intro s b hs
    rw [Function.iterate_succ_apply', run_iterate h, again, again, run_bind, run_bind]
    cases hr : (step b).run s with
    | mk r s' =>
      obtain e | ⟨b', _ | _⟩ := r
      · rfl
      · rfl
      · have hlt := h b b' s s' hr
        exact ih s' b' (by omega)

/-- Two loops agree where their rounds do. -/
theorem run_iterate_congr {step step' : β → Act ε (β × Bool)} {n : Nat}
    (h : ∀ {s : Session}, s.size < n → ∀ b, (step b).run s = (step' b).run s) {s : Session}
    (hs : s.size < n) (b : β) : (iterate step b).run s = (iterate step' b).run s := by
  induction hm : s.size using Nat.strongRecOn generalizing s b with
  | ind m ih =>
    show iterate step b s = iterate step' b s
    have hstep : step b s = step' b s := h hs b
    rw [iterate, iterate, hstep]
    split
    next b' s' _ =>
      split
      next hlt => exact ih s'.size (hm ▸ hlt) (by omega) b' rfl
      next => rfl
    next => rfl
    next => rfl

/-- A rule uses the rule inside only when it has read something. -/
def Guarded (rule : Act ε α → Act ε α) : Prop :=
  ∀ x s, (∀ s', s'.size < s.size → x.run s' = (nest rule).run s') →
    (rule x).run s = (rule (nest rule)).run s

theorem run_nest {rule : Act ε α → Act ε α} (h : Guarded rule) (s : Session) :
    (nest rule).run s = (rule (nest rule)).run s := by
  show nest rule s = _
  rw [nest]
  apply h
  intro s' hs'
  exact if_pos hs'

theorem nest_unrolls {rule : Act ε α → Act ε α} (h : Guarded rule) :
    (nest rule).Unrolls (fun inner _ => rule (inner ())) () := by
  intro s rest
  suffices hall : ∀ n s, s.size < n →
      ((fun (inner : Unit → Act ε α) _ => rule (inner ()))^[n] rest ()).run s =
        (nest rule).run s from
    hall _ s (Nat.lt_succ_self _)
  intro n
  induction n with
  | zero => exact fun s hs => absurd hs (Nat.not_lt_zero _)
  | succ n ih =>
    intro s hs
    rw [Function.iterate_succ_apply', run_nest h]
    apply h
    intro s' hs'
    exact ih s' (by omega)

end Act

/-! What a rule leaves to read -/

/-- The rule leaves no more than there was. -/
def Parser.Shrinks {α : Type} (x : Parser α) : Prop :=
  ∀ s a s', x.run s = (.ok a, s') → s'.size ≤ s.size

/-- A run next to itself, with nothing asked of the builder. -/
abbrev Session.alone (s : Session) : Pairing := .single (fun _ _ => True) (s.steps.length + 1)

theorem Session.mid_alone (s : Session) (p : Place) : s.alone.Mid p [] s s :=
  ⟨⟨rfl, trivial⟩, Pairing.single_mid (Nat.le_succ _) (Nat.succ_pos _), trivial⟩

namespace Parser

variable {α : Type} {s s' : Session} {p : Place}

theorem follows_of_runs {x : Parser α} {Q : α → α → Session → Session → Prop}
    (h : s.alone.Runs False p x x s s Q) {a : α} (hrun : x.run s = (.ok a, s')) :
    s.tokens.Follows s'.tokens ∧ Q a a s' s' := by
  unfold Pairing.Runs at h
  rw [hrun] at h
  cases h with
  | ok hs _ hq => exact ⟨hs, hq⟩

theorem shrinks_of_runs {x : Parser α} {Q : Session → α → α → Session → Session → Prop}
    (h : ∀ s : Session, s.alone.Runs False .top x x s s (Q s)) : x.Shrinks := by
  intro s a s' hrun
  exact (follows_of_runs (h s) hrun).1.size_mono

theorem Shrinks.pure (a : α) : (pure a : Parser α).Shrinks := by
  intro s b s' h
  cases h
  exact Nat.le_refl _

theorem Shrinks.bind {β : Type} {x : Parser α} {f : α → Parser β} (hx : x.Shrinks)
    (hf : ∀ a, (f a).Shrinks) : (x >>= f).Shrinks := by
  intro s b s' h
  obtain ⟨a, s₁, hrun, hrest⟩ := exists_of_run_bind h
  exact Nat.le_trans (hf a _ _ _ hrest) (hx _ _ _ hrun)

theorem unexpected_shrinks (expected : List String) :
    (unexpected expected : Parser α).Shrinks := by
  intro s a s' h
  obtain ⟨t, s₁, -, hthrow⟩ := exists_of_run_bind h
  cases t <;> cases hthrow

theorem build_shrinks (x : Build α) : (liftM x : Parser α).Shrinks := by
  intro s a s' h
  rw [Pairing.run_lift_build] at h
  cases hx : x.run s.builder with
  | mk r b =>
    rw [hx] at h
    cases r with
    | error f => cases h
    | ok a =>
      cases h
      exact Nat.le_refl _

theorem Shrinks.iterate {β : Type} {step : β → Parser (β × Bool)} (h : ∀ b, (step b).Shrinks)
    (b : β) : Shrinks (Act.iterate step b) := by
  intro s
  induction hn : s.size using Nat.strongRecOn generalizing s b with
  | ind n ih =>
    intro c s' hrun
    change Act.iterate step b s = _ at hrun
    rw [Act.iterate] at hrun
    cases hr : step b s with
    | mk r s₁ =>
      rw [hr] at hrun
      obtain e | ⟨b', _ | _⟩ := r
      · cases hrun
      · cases hrun
        exact hn ▸ h b s _ _ hr
      · dsimp only at hrun
        split at hrun
        next hlt => exact Nat.le_trans (ih s₁.size (hn ▸ hlt) b' s₁ rfl c s' hrun) (by omega)
        next => cases hrun

theorem value_shrinks : value.Shrinks :=
  shrinks_of_runs fun s => Pairing.value_reads (s.mid_alone .top)

theorem argument_shrinks : argument.Shrinks :=
  shrinks_of_runs fun s => Pairing.argument_reads (s.mid_alone .top)

theorem resultTarget_shrinks : resultTarget.Shrinks :=
  shrinks_of_runs fun s => Pairing.resultTarget_reads (s.mid_alone .top)

theorem opArgument_shrinks : opArgument.Shrinks :=
  shrinks_of_runs fun s => Pairing.opArgument_reads (s.mid_alone .top)

theorem localName_shrinks : localName.Shrinks :=
  shrinks_of_runs fun s => Pairing.localName_reads (s.mid_alone .top)

theorem expectString_shrinks : expectString.Shrinks :=
  shrinks_of_runs fun s => Pairing.expectString_reads (s.mid_alone .top)

theorem expectOperator_shrinks (op : Operator) : (expectOperator op).Shrinks :=
  shrinks_of_runs fun s => Pairing.expectOperator_reads (s.mid_alone .top) op

theorem peekKind_shrinks {n : Nat} (hn : n ≤ maxLookahead) : (peekKind n).Shrinks := by
  intro s k s' h
  obtain ⟨t, s₁, hpeek, hpure⟩ := exists_of_run_bind h
  obtain ⟨s₂, hrun, -, -, hF⟩ := s.run_peek hn
  rw [hrun] at hpeek
  cases hpure
  obtain rfl := (Prod.mk.inj hpeek).2
  exact hF.size_mono

theorem atOperator_shrinks {n : Nat} (hn : n ≤ maxLookahead) (op : Operator) :
    (atOperator n op).Shrinks := by
  intro s a s' h
  obtain ⟨k, s₁, hpeek, hpure⟩ := exists_of_run_bind h
  cases hpure
  exact peekKind_shrinks hn s k s' hpeek

theorem size_eatOperator {op : Operator} {ate : Bool}
    (h : (eatOperator op).run s = (.ok ate, s')) :
    s'.size ≤ s.size ∧ (ate = true → s'.size < s.size) := by
  obtain ⟨hF, -, -, -, -, -, hshort⟩ :=
    follows_of_runs (Pairing.eatOperator_reads (s.mid_alone .top) op) h
  exact ⟨hF.size_mono, fun hate => hF.size_lt (hshort hate).1⟩

/-- A token that is taken is gone. -/
theorem size_advance {t : Token} (h : advance.run s = (.ok t, s')) : s'.size < s.size := by
  obtain ⟨a, s₁, hnext, hrest⟩ := exists_of_run_bind h
  obtain ⟨s₂, hrun, hsteps, -, hF⟩ := s.run_next
  rw [hrun] at hnext
  cases a with
  | none => cases hrest
  | some u =>
    cases hrest
    obtain ⟨hstep, rfl⟩ := Prod.mk.inj hnext
    apply hF.size_lt
    show s₂.steps.length < s.steps.length
    rw [hsteps]
    cases hL : s.steps with
    | nil =>
      rw [hL] at hstep
      cases hstep
    | cons step L =>
      rw [hL] at hstep
      cases step with
      | error f => cases hstep
      | ok v => exact Nat.lt_succ_self _

theorem size_advanceText {text : String} (h : advanceText.run s = (.ok text, s')) :
    s'.size < s.size := by
  obtain ⟨t, s₁, hadvance, hpure⟩ := exists_of_run_bind h
  cases hpure
  exact size_advance hadvance

/-! The rounds of the loops -/

theorem nextItem_progresses {item : Parser α} (h : item.Shrinks) (op : Operator) :
    Act.Progresses (nextItem op item) := by
  intro items items' s s' hrun
  obtain ⟨a, s₁, hitem, hrun⟩ := exists_of_run_bind hrun
  obtain ⟨ate, s₂, heat, hpure⟩ := exists_of_run_bind hrun
  cases hpure
  exact Nat.lt_of_lt_of_le ((size_eatOperator heat).2 rfl) (h s a s₁ hitem)

theorem nextEntry_progresses {inner : Parser Expression} (h : inner.Shrinks) :
    Act.Progresses (nextEntry inner) := by
  intro entries entries' s s' hrun
  obtain ⟨ate, s₁, heat, hrun⟩ := exists_of_run_bind hrun
  cases ate with
  | false => cases hrun
  | true =>
    obtain ⟨e, s₂, hinner, hpure⟩ := exists_of_run_bind hrun
    cases hpure
    exact Nat.lt_of_le_of_lt (h s₁ e s' hinner) ((size_eatOperator heat).2 rfl)

theorem nextArgumentFlag_progresses : Act.Progresses nextArgumentFlag := by
  intro a a' s s' hrun
  obtain ⟨hF, -, -, -, -, hshort⟩ :=
    follows_of_runs (Pairing.nextArgumentFlag_reads (s.mid_alone .top) a) hrun
  exact hF.size_lt (hshort rfl).1

theorem nextTargetMark_progresses (allowInvocant : Bool) :
    Act.Progresses (nextTargetMark allowInvocant) := by
  intro marks marks' s s' hrun
  obtain ⟨hF, -, -, -, -, hshort⟩ := follows_of_runs
    (Pairing.nextTargetMark_reads (s.mid_alone .top) allowInvocant marks) hrun
  exact hF.size_lt (hshort rfl).1

/-- A step that only says whether to go on. -/
theorem progresses_of_step {step : Parser Bool}
    (h : ∀ s s', step.run s = (.ok true, s') → s'.size < s.size) :
    Act.Progresses fun _ : Unit => do return ((), ← step) := by
  intro _ _ s s' hrun
  obtain ⟨go, s₁, hstep, hpure⟩ := exists_of_run_bind hrun
  cases hpure
  exact h s s' hstep

theorem size_eatNewline (s s' : Session) (h : eatNewline.run s = (.ok true, s')) :
    s'.size < s.size := by
  obtain ⟨hF, -, hended⟩ :=
    follows_of_runs (Pairing.eatNewline_runs (s.mid_alone .top)) h
  cases hended with
  | ended _ hshort _ => exact hF.size_lt hshort.1

theorem size_nextSubFlag (s s' : Session) (h : nextSubFlag.run s = (.ok true, s')) :
    s'.size < s.size := by
  obtain ⟨hF, -, -, hshort⟩ :=
    follows_of_runs (Pairing.nextSubFlag_runs (s.mid_alone .body)) h
  exact hF.size_lt (hshort rfl).1

/-! Values in keys -/

section

variable {inner : Parser Expression} {n : Nat}
  (h : ∀ s, s.size < n → inner.run s = value.run s)
include h

theorem run_nextEntry_congr (hs : s.size < n) (entries : List Expression) :
    (nextEntry inner entries).run s = (nextEntry value entries).run s := by
  apply run_bind_congr
  intro ate s₁ heat
  cases ate with
  | false => rfl
  | true =>
    have hs₁ := (size_eatOperator heat).1
    show (inner >>= _).run s₁ = (value >>= _).run s₁
    rw [run_bind, run_bind, h s₁ (by omega)]

theorem run_keyOf_congr (hs : s.size < n) : (keyOf inner).run s = (keyOf value).run s := by
  apply run_bind_congr
  intro _ s₁ hopen
  have hs₁ := expectOperator_shrinks _ s _ s₁ hopen
  rw [run_bind, h s₁ (by omega), ← run_bind]
  apply run_bind_congr
  intro first s₂ hfirst
  have hs₂ := value_shrinks s₁ first s₂ hfirst
  rw [run_bind, run_bind, Act.run_iterate_congr (run_nextEntry_congr h) (by omega)]

end

/-- A value inside a key comes after the bracket, and so after what is indexed. -/
theorem valueStep_guarded : Act.Guarded valueStep := by
  intro inner s h
  have hkeyed (object : PmcObject) {s₁ : Session} (hs₁ : s₁.size < s.size) :
      (do let k ← keyOf inner; return .target (← Build.indexedTarget object k) :
        Parser Expression).run s₁ =
      (do let k ← keyOf value; return .target (← Build.indexedTarget object k) :
        Parser Expression).run s₁ := by
    rw [run_bind, run_bind, run_keyOf_congr h hs₁]
  -- Only a key has values in it, and in front of one a register or a name is taken.
  apply run_bind_congr
  intro k s₁ hpeek
  have hs₁ := peekKind_shrinks (Nat.zero_le _) s k s₁ hpeek
  cases k with
  | none => rfl
  | some k =>
    cases k with
    | register cls number =>
      cases cls with
      | pmc =>
        apply run_bind_congr
        intro bracket s₂ hat
        have hs₂ := atOperator_shrinks (by decide) _ s₁ bracket s₂ hat
        cases bracket with
        | false => rfl
        | true =>
          apply run_bind_congr
          intro t s₃ hadvance
          have hs₃ := size_advance hadvance
          exact hkeyed _ (by omega)
      | _ => rfl
    | identifier | keyword =>
      apply run_bind_congr
      intro name s₂ hname
      have hs₂ := size_advanceText hname
      apply run_bind_congr
      intro bracket s₃ hat
      have hs₃ := atOperator_shrinks (by decide) _ s₂ bracket s₃ hat
      cases bracket with
      | false => rfl
      | true => exact hkeyed _ (by omega)
    | _ => rfl

theorem target_shrinks : target.Shrinks :=
  shrinks_of_runs fun s => Pairing.target_reads (s.mid_alone .top)

section

variable {inner : Parser Expression}

theorem keyOf_shrinks (h : inner.Shrinks) : (keyOf inner).Shrinks := by
  have hentry (entries : List Expression) : (nextEntry inner entries).Shrinks := by
    refine Shrinks.bind (fun _ _ _ hrun => (size_eatOperator hrun).1) fun ate => ?_
    cases ate with
    | false => exact .pure _
    | true => exact h.bind fun _ => .pure _
  exact (expectOperator_shrinks _).bind fun _ => h.bind fun _ =>
    (Shrinks.iterate hentry []).bind fun _ => (expectOperator_shrinks _).bind fun _ => .pure _

/-- A value leaves no more to read than there was if those in its keys do not. -/
theorem valueStep_shrinks (h : inner.Shrinks) : (valueStep inner).Shrinks := by
  have hkeyed (object : PmcObject) : (do
      let k ← keyOf inner
      return .target (← Build.indexedTarget object k) : Parser Expression).Shrinks :=
    (keyOf_shrinks h).bind fun _ => (build_shrinks _).bind fun _ => .pure _
  have htarget : (do return .target (← target) : Parser Expression).Shrinks :=
    target_shrinks.bind fun _ => .pure _
  refine (peekKind_shrinks (Nat.zero_le _)).bind fun k => ?_
  obtain _ | k := k
  · exact unexpected_shrinks _
  cases k with
  | register cls number =>
    cases cls with
    | pmc =>
      refine (atOperator_shrinks (by decide) _).bind fun bracket => ?_
      cases bracket with
      | false => exact htarget
      | true =>
        exact Shrinks.bind (fun _ _ _ hrun => Nat.le_of_lt (size_advance hrun)) fun _ => hkeyed _
    | _ => exact htarget
  | identifier | keyword =>
    refine Shrinks.bind (fun _ _ _ hrun => Nat.le_of_lt (size_advanceText hrun)) fun name =>
      (atOperator_shrinks (by decide) _).bind fun bracket => ?_
    cases bracket with
    | false => exact build_shrinks _
    | true => exact hkeyed _
  | int | num | string =>
    exact Shrinks.bind (fun _ _ _ hrun => Nat.le_of_lt (size_advance hrun)) fun _ => .pure _
  | _ => exact unexpected_shrinks _

end

/-! Lines -/

/-- A line, and then the rest of the lines, without a check. -/
def lineRound (rest : Place → Mended Unit) (p : Place) : Mended Unit := do
  match ← Mended.attempt (line p) (some p) with
  | none => pure ()
  | some q => rest q

theorem lines_unroll (p : Place) (s : Session) (rest : Place → Mended Unit) :
    (lineRound^[3 * s.size + p.depth + 1] rest p).run s = (linesFrom p).run s := by
  suffices hall : ∀ n s p, 3 * s.size + p.depth < n →
      (lineRound^[n] rest p).run s = (linesFrom p).run s from hall _ s p (Nat.lt_succ_self _)
  intro n
  induction n with
  | zero => exact fun s p hn => absurd hn (Nat.not_lt_zero _)
  | succ n ih =>
    intro s p hn
    rw [Function.iterate_succ_apply', run_linesFrom, lineRound, run_bind]
    cases hr : (Mended.attempt (line p) (some p)).run s with
    | mk r s' =>
      obtain f | _ | q := r
      · rfl
      · rfl
      · have hq := q.depth_le
        have hdecreases := attempt_decreases hr
        exact ih s' q (by omega)

/-- Lines are read up to the end of the text. -/
theorem steps_of_linesFrom {p : Place} {s s' : Session} (h : (linesFrom p).run s = (.ok (), s')) :
    s'.steps = [] := by
  induction hn : 3 * s.size + p.depth using Nat.strongRecOn generalizing p s with
  | ind n ih =>
    rw [run_linesFrom] at h
    cases hr : (Mended.attempt (line p) (some p)).run s with
    | mk r s₁ =>
      rw [hr] at h
      obtain f | _ | q := r
      · cases h
      · cases h
        exact (attempt_advances hr).2
      · have hq := q.depth_le
        have hdecreases := attempt_decreases hr
        exact ih _ (by omega) h rfl

/-- Every recursion of the grammar ends: the lines of a program, the loops within a line, and the
values in keys. -/
structure LoopsUnroll : Prop where
  /-- Lines read something, or leave their place for the one around it. -/
  progress {p q s s'} : (Mended.attempt (line p) (some p)).run s = (.ok (some q), s') →
    s'.size < s.size ∨ s'.size ≤ s.size ∧ q.depth < p.depth
  lines (p s rest) :
    (lineRound^[3 * s.size + p.depth + 1] rest p).run s = (linesFrom p).run s
  newlines : skipNewlines.Unrolls (Act.again fun _ => do return ((), ← eatNewline)) ()
  values : value.Unrolls (fun inner _ => valueStep (inner ())) ()
  entries : (Act.iterate (nextEntry value) []).Unrolls (Act.again (nextEntry value)) []
  arguments : (separated .comma argument).Unrolls (Act.again (nextItem .comma argument)) []
  argumentFlags (a) : (argumentFlags a).Unrolls (Act.again nextArgumentFlag) a
  results : (separated .comma resultTarget).Unrolls (Act.again (nextItem .comma resultTarget)) []
  targetMarks (allowInvocant) : (targetMarks allowInvocant).Unrolls
    (Act.again (nextTargetMark allowInvocant)) ⟨.empty, none, none⟩
  operands : (separated .comma opArgument).Unrolls (Act.again (nextItem .comma opArgument)) []
  locals : (separated .comma localName).Unrolls (Act.again (nextItem .comma localName)) []
  names : (separated .semicolon expectString).Unrolls
    (Act.again (nextItem .semicolon expectString)) []
  subFlags : subFlags.Unrolls (Act.again fun _ => do return ((), ← nextSubFlag)) ()

theorem loops_unroll : LoopsUnroll where
  progress := attempt_decreases
  lines := lines_unroll
  newlines := Act.iterate_unrolls (progresses_of_step size_eatNewline) ()
  values := Act.nest_unrolls valueStep_guarded
  entries := Act.iterate_unrolls (nextEntry_progresses value_shrinks) []
  arguments := Act.iterate_unrolls (nextItem_progresses argument_shrinks _) []
  argumentFlags := Act.iterate_unrolls nextArgumentFlag_progresses
  results := Act.iterate_unrolls (nextItem_progresses resultTarget_shrinks _) []
  targetMarks allowInvocant := Act.iterate_unrolls (nextTargetMark_progresses allowInvocant) _
  operands := Act.iterate_unrolls (nextItem_progresses opArgument_shrinks _) []
  locals := Act.iterate_unrolls (nextItem_progresses localName_shrinks _) []
  names := Act.iterate_unrolls (nextItem_progresses expectString_shrinks _) []
  subFlags := Act.iterate_unrolls (progresses_of_step size_nextSubFlag) ()

end Parser

/-- Reading ends on every text, whatever is in it and however many problems are tolerated. No loop
goes on without reading something; after at most three rounds for each character, and one more, the
lines are read; and then the whole text was read, or there was one problem more than is
tolerated. -/
theorem program_terminates : Parser.LoopsUnroll ∧ ∀ (source : String) (o : BuildOptions),
    (∀ rest, (Parser.lineRound^[3 * source.length + 1] rest .top).run (.start source o) =
      Parser.program.run (.start source o)) ∧
    ((∃ s, Parser.program.run (.start source o) = (.ok (), s) ∧ s.steps = []) ∨
      ∃ s, Parser.program.run (.start source o) =
        (.error (.tooManyErrors (o.maxErrors + 1)), s)) := by
  refine ⟨Parser.loops_unroll, fun source o => ⟨fun rest => ?_, ?_⟩⟩
  · have hsize : (Session.start source o).size = source.length := by
      simp [Session.start, Session.size, TokenStream.ofLexer, TokenStream.size, Lexer.ofString,
        String.length_toList]
    rw [← hsize]
    exact Parser.lines_unroll .top _ rest
  · obtain ⟨s, hrun, -⟩ | ⟨f, s, hrun, hexceeded⟩ := linesFrom_outcome source o
    · exact .inl ⟨s, hrun, Parser.steps_of_linesFrom hrun⟩
    · obtain ⟨rfl, hcount⟩ := hexceeded
      exact .inr ⟨s, hcount ▸ hrun⟩

end PirFrontend
