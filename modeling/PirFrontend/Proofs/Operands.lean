import PirFrontend.Proofs.Words

/-!
What two builders answer when they are asked for an operand. The answers are the same, and each
operand is made of what is declared, or a problem was reported.
-/
namespace PirFrontend

open PirFrontend.Parser (Place Block)

/-- Whether a problem is found within a line, and not at the end of a block. -/
def Problem.isInline : Problem → Bool
  | blockWithoutBegin | blockWithoutTarget => false
  | _ => true

/-- A problem within a line is no malformed text. -/
theorem Problem.kind_ne_malformed {q : Problem} (h : q.isInline = true) :
    q.kind ≠ .malformed := by
  cases q with
  | blockWithoutBegin => cases h
  | blockWithoutTarget => cases h
  | arithmetic e => cases e <;> nofun
  | _ => nofun

namespace Builder

variable {b b' : Builder}

theorem Within.lookup (h : b.Within b') (name : String) : b'.lookup name = b.lookup name := by
  unfold Builder.lookup
  rw [h.current]

theorem Within.ne_nil (h : b.Within b') (hd : b.diagnostics ≠ []) : b'.diagnostics ≠ [] := by
  obtain ⟨ds, hds⟩ := h.diagnostics
  rw [← hds]
  simp [hd]

/-- What an operand is made of is found by name, or was reported. -/
theorem Made.mono {e : Expression} (hl : ∀ name, b'.lookup name = b.lookup name)
    (hd : b.diagnostics ≠ [] → b'.diagnostics ≠ []) (he : b.Made e) : b'.Made e := by
  induction he with
  | constant c => exact .constant c
  | register type number => exact .register type number
  | symbol hs => exact .symbol ((hl _).trans hs)
  | standIn name type h => exact .standIn name type (hd h)
  | keyed _ hp _ iht ihk => exact .keyed iht (hp.imp_right hd) ihk
  | key _ _ ihf ihm => exact .key ihf ihm
  | marked flags namedAs _ ih => exact .marked flags namedAs ih

/-- An operand that was made stays one while more is read. -/
theorem Made.within {e : Expression} (h : b.Within b') (he : b.Made e) : b'.Made e :=
  he.mono h.lookup h.ne_nil

theorem MadeMethod.within {e : Expression} (h : b.Within b') (he : b.MadeMethod e) :
    b'.MadeMethod e := by
  cases he with
  | string s => exact .string s
  | target ht htype => exact .target (ht.within h) (htype.imp_right (Or.imp_right h.ne_nil))

theorem MadeSource.mono {e : Expression} (hl : ∀ name, b'.lookup name = b.lookup name)
    (hd : b.diagnostics ≠ [] → b'.diagnostics ≠ []) (he : b.MadeSource e) : b'.MadeSource e :=
  Or.imp_left (Made.mono hl hd) he

theorem MadeSource.within {e : Expression} (h : b.Within b') (he : b.MadeSource e) :
    b'.MadeSource e :=
  he.mono h.lookup h.ne_nil

theorem MadeTargets.within {ts : List Target} (h : b.Within b') (hts : b.MadeTargets ts) :
    b'.MadeTargets ts :=
  fun t ht => (hts t ht).within h

theorem Alike.lookup {c : Builder} (h : b.Alike c) (name : String) :
    b.lookup name = c.lookup name := by
  unfold Builder.lookup
  rw [h.current]

theorem Alike.lookupConstant {c : Builder} (h : b.Alike c) (name : String) :
    b.lookupConstant name = c.lookupConstant name := by
  unfold Builder.lookupConstant
  rw [h.current, h.constants, h.globalConstants]

end Builder

namespace Pairing

variable {α β : Type} {P : Pairing} {p : Place} {b c : Builder}

theorem Agree.bind {x : Build α} {f : α → Build β} {Q : α → Builder → Builder → Prop}
    {R : β → Builder → Builder → Prop} (hx : P.Agree Q (x.run b) (x.run c))
    (hf : ∀ a b' c', Q a b' c' → P.Agree R ((f a).run b') ((f a).run c')) :
    P.Agree R ((x >>= f).run b) ((x >>= f).run c) := by
  rw [run_bind, run_bind]
  revert hx
  generalize x.run b = r
  generalize x.run c = r'
  intro hx
  cases hx with
  | ok hq => exact hf _ _ _ hq
  | stopped h => exact .stopped h
  | left h => exact .left h
  | right h => exact .right h

theorem Agree.imp {Q R : α → Builder → Builder → Prop} {r r' : Except Fatal α × Builder}
    (h : P.Agree Q r r') (hQ : ∀ a b' c', r = (.ok a, b') → Q a b' c' → R a b' c') :
    P.Agree R r r' := by
  cases h with
  | ok hq => exact .ok (hQ _ _ _ rfl hq)
  | stopped h => exact .stopped h
  | left h => exact .left h
  | right h => exact .right h

theorem Answers.pure {a : α} {R : Builder → α → Prop} (h : P.rel p b c) (hr : R b a) :
    P.Answers p (pure a) b c R :=
  .ok ⟨h, .refl b, hr⟩

theorem Answers.bind {x : Build α} {f : α → Build β} {R : Builder → α → Prop}
    {R' : Builder → β → Prop} (hx : P.Answers p x b c R)
    (hf : ∀ a b' c', b.Within b' → P.rel p b' c' → R b' a → P.Answers p (f a) b' c' R') :
    P.Answers p (x >>= f) b c R' := by
  refine Agree.bind hx fun a b' c' ⟨hrel, hw, hr⟩ => (hf a b' c' hw hrel hr).imp ?_
  rintro a' b'' c'' - ⟨hrel', hw', hr'⟩
  exact ⟨hrel', hw.trans hw', hr'⟩

theorem Answers.imp {x : Build α} {R R' : Builder → α → Prop} (h : P.Answers p x b c R)
    (hR : ∀ a b', b.Within b' → R b' a → R' b' a) : P.Answers p x b c R' := by
  apply Agree.imp h
  rintro a b' c' - ⟨hrel, hw, hr⟩
  exact ⟨hrel, hw, hR a b' hw hr⟩

/-- What depends on the state of both builders depends on what they have in common. -/
theorem Answers.get {f : Builder → Build α} {R : Builder → α → Prop}
    (hbc : (f c).run c = (f b).run c) (h : P.Answers p (f b) b c R) :
    P.Answers p (do f (← get)) b c R := by
  unfold Answers at *
  rw [run_bind, run_bind]
  simp only [run_get]
  rwa [hbc]

variable [P.Readable]

/-- A report that does not stop the build leaves a problem behind. -/
theorem report_answers (h : P.rel p b c) {kind : DiagnosticKind} (hk : kind ≠ .malformed)
    (message : String) :
    P.Answers p (Build.report kind message) b c fun b' _ => b'.diagnostics ≠ [] := by
  apply (Readable.report message hk h).imp
  intro _ b' c' hrun hrel
  obtain ⟨-, -, rfl⟩ := Build.run_report_ok hrun
  exact ⟨hrel, .reported b _, by simp [Builder.record]⟩

theorem complain_answers (h : P.rel p b c) {q : Problem} (hq : q.isInline = true) :
    P.Answers p (Build.complain q) b c fun b' _ => b'.diagnostics ≠ [] :=
  report_answers h (q.kind_ne_malformed hq) q.message

theorem undeclared_answers (h : P.rel p b c) (name : String) (type : ValueType) {q : Problem}
    (hq : q.isInline = true) : P.Answers p (Build.undeclared name type q) b c fun b' t =>
      b'.Made (.target t) ∧ b'.diagnostics ≠ [] := by
  apply (complain_answers h hq).bind
  intro _ b' c' _ hrel hd
  exact .pure hrel ⟨.standIn name type hd, hd⟩

theorem symbolTarget_answers (h : P.rel p b c) (name : String) :
    P.Answers p (Build.symbolTarget name) b c fun b' t => b'.Made (.target t) := by
  apply Answers.get (by rw [(Readable.alike h).lookup])
  cases hs : b.lookup name with
  | some s => exact .pure h (.symbol hs)
  | none => exact (undeclared_answers h name _ (by rfl)).imp fun t b' _ hr => hr.1

theorem identifierValue_answers (h : P.rel p b c) (name : String) :
    P.Answers p (Build.identifierValue name) b c fun b' e => b'.Made e := by
  have ha := Readable.alike h
  apply Answers.get (by rw [ha.lookup, ha.lookupConstant])
  split
  · exact .pure h (.constant _)
  · exact (symbolTarget_answers h name).bind fun t b' c' _ hrel ht => .pure hrel ht

theorem pmcTarget_answers (h : P.rel p b c) (object : PmcObject)
    {missing mismatch : String → Problem} (hmissing : ∀ name, (missing name).isInline = true)
    (hmismatch : ∀ name, (mismatch name).isInline = true) :
    P.Answers p (Build.pmcTarget object missing mismatch) b c fun b' t =>
      b'.Made (.target t) ∧ b'.PmcOr t := by
  cases object with
  | register number => exact .pure h ⟨.register _ _, .inl rfl⟩
  | named name =>
    apply Answers.get (by rw [(Readable.alike h).lookup])
    cases hs : b.lookup name with
    | none =>
      exact (undeclared_answers h name _ (hmissing name)).imp fun t b' _ hr => ⟨hr.1, .inr hr.2⟩
    | some s =>
      dsimp only
      split
      next htype => exact .pure h ⟨.symbol hs, .inl htype⟩
      next htype =>
        apply (complain_answers h (hmismatch name)).bind
        intro _ b' c' hw hrel hd
        exact .pure hrel ⟨.symbol ((hw.lookup name).trans hs), .inr hd⟩

theorem indexedTarget_answers (h : P.rel p b c) (object : PmcObject) {key : Key}
    (hk : b.Made (.key key)) :
    P.Answers p (Build.indexedTarget object key) b c fun b' t => b'.Made (.target t) := by
  apply (pmcTarget_answers h object (fun _ => by rfl) fun _ => by rfl).bind
  intro t b' c' hw hrel ht
  exact .pure hrel (.keyed ht.1 ht.2 (hk.within hw))

theorem pmcObject_answers (h : P.rel p b c) (object : PmcObject) :
    P.Answers p (Build.pmcObject object) b c fun b' t => b'.Made (.target t) := by
  cases object with
  | register number => exact .pure h (.register _ _)
  | named name =>
    apply Answers.get (by rw [(Readable.alike h).lookup])
    cases hs : b.lookup name with
    | none => exact (undeclared_answers h name _ (by rfl)).imp fun t b' _ hr => hr.1
    | some s => exact .pure h (.symbol hs)

theorem invocantTarget_answers (h : P.rel p b c) (object : PmcObject) :
    P.Answers p (Build.invocantTarget object) b c fun b' t => b'.Made (.target t) :=
  (pmcTarget_answers h object (fun _ => by rfl) fun _ => by rfl).imp fun _ _ _ ht => ht.1

theorem methodTarget_answers (h : P.rel p b c) (name : String) :
    P.Answers p (Build.methodTarget name) b c fun b' e => b'.MadeMethod e := by
  apply Answers.get (by rw [(Readable.alike h).lookup])
  cases hs : b.lookup name with
  | none =>
    apply (undeclared_answers h name _ (by rfl)).bind
    intro t b' c' _ hrel ht
    exact .pure hrel (.target ht.1 (.inr (.inr ht.2)))
  | some s =>
    dsimp only
    split
    next htype => exact .pure h (.target (.symbol hs) (htype.imp_right .inl))
    next htype =>
      apply (complain_answers h (by rfl)).bind
      intro _ b' c' hw hrel hd
      exact .pure hrel (.target (.symbol ((hw.lookup name).trans hs)) (.inr (.inr hd)))

end Pairing
end PirFrontend
