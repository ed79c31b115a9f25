import PirFrontend.Proofs.Termination

/-!
Runs that meet no problem, carried over. If an action succeeds and leaves a clean state behind, an
action that is related to it succeeds too, from every state that is related to where it began, and
both end in states that are related again. A state that is not clean is never clean again, so what
is known of the last state is known of every state on the way there.
-/
namespace PirFrontend

open PirFrontend.Parser (Place)

/-- States of a run, of which some are clean. -/
class HasClean (σ : Type) where
  Clean : σ → Prop

open HasClean

/-- No problem was reported. -/
instance : HasClean Builder := ⟨fun b => b.diagnostics = []⟩

/-- No problem was reported, and no text is left that forms no token. -/
instance : HasClean Session :=
  ⟨fun s => s.builder.diagnostics = [] ∧ ∃ ts : List Token, s.steps = ts.map .ok⟩

/-- The action succeeds with a clean state only if it began with one. If it does, the other one
succeeds where it is run from a related state. -/
structure Carries {ε σ α : Type} [HasClean σ] (P : σ → σ → Prop) (x y : ExceptT ε (StateM σ) α)
    (R : α → α → Prop) (Q : α → σ → σ → Prop) : Prop where
  clean {s s' : σ} {a : α} : x.run s = (.ok a, s') → Clean s' → Clean s
  carry {s t s' : σ} {a : α} : P s t → x.run s = (.ok a, s') → Clean s' →
    ∃ b t', y.run t = (.ok b, t') ∧ R a b ∧ Q a s' t'

/-- The second value is a function of the first. -/
def Maps {α : Type} (r : α → α) (a b : α) : Prop := b = r a

/-- Every value is related to another one. -/
class Total {α : Type} (R : α → α → Prop) : Prop where
  total (a : α) : ∃ b, R a b

instance {α : Type} (r : α → α) : Total (Maps r) := ⟨fun a => ⟨r a, rfl⟩⟩

namespace Carries

section

variable {ε σ α β : Type} [HasClean σ] {P P' : σ → σ → Prop} {x y : ExceptT ε (StateM σ) α}
  {f g : α → ExceptT ε (StateM σ) β} {R : α → α → Prop} {R' : β → β → Prop}
  {Q Q' : α → σ → σ → Prop} {Q₁ : β → σ → σ → Prop} {r : α → α}

theorem imp (h : Carries P x y R Q) (hP : ∀ s t, P' s t → P s t)
    (hQ : ∀ a s t, Clean s → Q a s t → Q' a s t) : Carries P' x y R Q' where
  clean := h.clean
  carry hPst hrun hclean := by
    obtain ⟨b, t', hy, hR, hq⟩ := h.carry (hP _ _ hPst) hrun hclean
    exact ⟨b, t', hy, hR, hQ _ _ _ hclean hq⟩

theorem before (h : Carries P x y R Q) (hP : ∀ s t, P' s t → P s t) : Carries P' x y R Q :=
  h.imp hP fun _ _ _ _ => id

theorem after (h : Carries P x y R Q) (hQ : ∀ a s t, Q a s t → Q' a s t) : Carries P x y R Q' :=
  h.imp (fun _ _ => id) fun _ _ _ _ => hQ _ _ _

/-- Less may be said of the values. -/
theorem relate {S : α → α → Prop} (h : Carries P x y R Q) (hR : ∀ a b, R a b → S a b) :
    Carries P x y S Q where
  clean := h.clean
  carry hPst hrun hclean := by
    obtain ⟨b, t', hy, hab, hq⟩ := h.carry hPst hrun hclean
    exact ⟨b, t', hy, hR _ _ hab, hq⟩

/-- What is known beforehand, whatever the states are, is known afterwards. -/
theorem frame (h : Carries P x y R Q) (φ : Prop) :
    Carries (fun s t => P s t ∧ φ) x y R fun a s t => Q a s t ∧ φ where
  clean := h.clean
  carry hP hrun hclean := by
    obtain ⟨b, t', hy, hR, hq⟩ := h.carry hP.1 hrun hclean
    exact ⟨b, t', hy, hR, hq, hP.2⟩

/-- What is known beforehand may be what the second action depends on. -/
theorem given {φ : Prop} (hclean : ∀ {s s' a}, x.run s = (.ok a, s') → Clean s' → Clean s)
    (h : φ → Carries P x y R Q) : Carries (fun s t => P s t ∧ φ) x y R Q where
  clean := hclean
  carry hP := (h hP.2).carry hP.1

/-- Where the states are never related, it only matters that clean states come from clean ones. -/
theorem vacuous {z : ExceptT ε (StateM σ) α} {R' : α → α → Prop} (h : Carries P' x z R' Q') :
    Carries (fun _ _ => False) x y R Q where
  clean := h.clean
  carry := False.elim

theorem pure {a b : α} (hR : R a b) (hQ : ∀ s t, P s t → Q a s t) :
    Carries P (pure a : ExceptT ε (StateM σ) α) (pure b) R Q where
  clean hrun hclean := by
    cases hrun
    exact hclean
  carry hP hrun _ := by
    cases hrun
    exact ⟨b, _, rfl, hR, hQ _ _ hP⟩

theorem bindRel [Total R] (hx : Carries P x y R Q)
    (hf : ∀ a b, R a b → Carries (Q a) (f a) (g b) R' Q₁) :
    Carries P (x >>= f) (y >>= g) R' Q₁ where
  clean hrun hclean := by
    obtain ⟨a, s₁, hrunx, hrunf⟩ := exists_of_run_bind hrun
    obtain ⟨b, hR⟩ := Total.total (R := R) a
    exact hx.clean hrunx ((hf a b hR).clean hrunf hclean)
  carry hP hrun hclean := by
    obtain ⟨a, s₁, hrunx, hrunf⟩ := exists_of_run_bind hrun
    obtain ⟨b₀, hR₀⟩ := Total.total (R := R) a
    have hclean₁ := (hf a b₀ hR₀).clean hrunf hclean
    obtain ⟨b, t₁, hy, hR, hq⟩ := hx.carry hP hrunx hclean₁
    obtain ⟨c, t', hg, hR', hq'⟩ := (hf a b hR).carry hq hrunf hclean
    exact ⟨c, t', (run_bind_ok hy).trans hg, hR', hq'⟩

theorem bind (hx : Carries P x y (Maps r) Q)
    (hf : ∀ a, Carries (Q a) (f a) (g (r a)) R' Q₁) : Carries P (x >>= f) (y >>= g) R' Q₁ :=
  hx.bindRel fun a _ hR => hR ▸ hf a

theorem map (hx : Carries P x y R Q) [Total R] (h : α → β) (hR : ∀ a b, R a b → R' (h a) (h b))
    (hQ : ∀ a s t, Q a s t → Q₁ (h a) s t) : Carries P (h <$> x) (h <$> y) R' Q₁ :=
  hx.bindRel (f := fun a => Pure.pure (h a)) (g := fun b => Pure.pure (h b)) fun a b hab =>
    .pure (hR a b hab) (hQ a)

/-- What is done next depends on the state. -/
theorem get {f g : σ → ExceptT ε (StateM σ) α}
    (hclean : ∀ {s s' a}, (f s).run s = (.ok a, s') → Clean s' → Clean s)
    (h : ∀ s t, P s t → Carries P (f s) (g t) R Q) :
    Carries P (MonadState.get >>= f) (MonadState.get >>= g) R Q where
  clean hrun := hclean hrun
  carry hP hrun := (h _ _ hP).carry hP hrun

/-- An action that never succeeds. -/
theorem never (h : ∀ s a s', x.run s ≠ (.ok a, s')) : Carries P x y R Q where
  clean hrun := absurd hrun (h _ _ _)
  carry _ hrun := absurd hrun (h _ _ _)

theorem raised (e e' : ε) : Carries P (throw e : ExceptT ε (StateM σ) α) (throw e') R Q :=
  .never fun _ _ _ h => by cases h

/-- An action that leaves no clean state. -/
theorem spoiled (h : ∀ s a s', x.run s = (.ok a, s') → ¬Clean s') : Carries P x y R Q where
  clean hrun hclean := absurd hclean (h _ _ _ hrun)
  carry _ hrun hclean := absurd hclean (h _ _ _ hrun)

theorem ite {c : Prop} [Decidable c] {x' y' : ExceptT ε (StateM σ) α}
    (h : c → Carries P x y R Q) (h' : ¬c → Carries P x' y' R Q) :
    Carries P (if c then x else x') (if c then y else y') R Q := by
  split
  next hc => exact h hc
  next hc => exact h' hc

end

/-! Loops -/

section

variable {ε α β : Type} [OfFatal ε] {P : Session → Session → Prop}

/-- A recursion that ends carries over if every number of its rounds does. -/
theorem of_unrolls {x y : Act ε α} {round round' : (β → Act ε α) → β → Act ε α} {b c : β}
    {R : α → α → Prop} {Q : α → Session → Session → Prop} (hx : x.Unrolls round b)
    (hy : y.Unrolls round' c) (h : ∀ n, Carries P (round^[n] (fun _ => throw stuck) b)
      (round'^[n] (fun _ => throw stuck) c) R Q) : Carries P x y R Q where
  clean {s _ _} hrun := by
    rw [← hx s fun _ => throw stuck] at hrun
    exact (h (s.size + 1)).clean hrun
  carry {s t _ _} hP hrun hclean := by
    -- So many rounds are enough for both.
    have hrounds {x : Act ε α} {round : (β → Act ε α) → β → Act ε α} {b : β}
        (hx : x.Unrolls round b) (u : Session) (m : Nat) :
        (round^[u.size + 1 + m] (fun _ => throw stuck) b).run u = x.run u := by
      rw [Function.iterate_add_apply]
      exact hx u _
    rw [← hrounds hx s (t.size + 1)] at hrun
    obtain ⟨b, t', hrun', hq⟩ := (h _).carry hP hrun hclean
    rw [Nat.add_comm, hrounds hy t (s.size + 1)] at hrun'
    exact ⟨b, t', hrun', hq⟩

theorem iterate {step step' : β → Act ε (β × Bool)} {R : β → β → Prop} [Total R]
    {Q : Session → Session → Prop} (hs : Act.Progresses step) (ht : Act.Progresses step')
    (hstep : ∀ b c, R b c → Carries P (step b) (step' c)
      (fun p q => R p.1 q.1 ∧ q.2 = p.2) fun p s t => if p.2 then P s t else Q s t)
    {b c : β} (hbc : R b c) :
    Carries P (Act.iterate step b) (Act.iterate step' c) R fun _ => Q := by
  have htotal : Total (fun p q : β × Bool => R p.1 q.1 ∧ q.2 = p.2) := by
    refine ⟨fun p => ?_⟩
    obtain ⟨q, hq⟩ := Total.total (R := R) p.1
    exact ⟨(q, p.2), hq, rfl⟩
  refine of_unrolls (Act.iterate_unrolls hs b) (Act.iterate_unrolls ht c) fun n => ?_
  -- The induction is on the number of rounds.
  induction n generalizing b c with
  | zero => exact .raised _ _
  | succ n ih =>
    rw [Function.iterate_succ_apply', Function.iterate_succ_apply']
    refine (hstep b c hbc).bindRel ?_
    rintro ⟨b', more⟩ ⟨c', more'⟩ ⟨hbc', hmore⟩
    obtain rfl : more' = more := hmore
    cases more' with
    | true => exact ih hbc'
    | false => exact .pure hbc' fun _ _ => id

/-- A rule that contains itself carries over if it does with any rule inside that does. `S` is what
else is asked of the rule inside. -/
theorem nest {rule : Act ε α → Act ε α} {R : α → α → Prop} {Q : α → Session → Session → Prop}
    {S : Act ε α → Prop} (hguarded : Act.Guarded rule) (hstuck : S (throw stuck))
    (hinner : ∀ inner, S inner → S (rule inner))
    (hrule : ∀ inner inner', S inner → S inner' → Carries P inner inner' R Q →
      Carries P (rule inner) (rule inner') R Q) :
    Carries P (Act.nest rule) (Act.nest rule) R Q := by
  refine of_unrolls (Act.nest_unrolls hguarded) (Act.nest_unrolls hguarded) fun n => ?_
  let nested (n : Nat) : Act ε α :=
    (fun (inner : Unit → Act ε α) _ => rule (inner ()))^[n] (fun _ => throw stuck) ()
  have hsucc (n : Nat) : nested (n + 1) = rule (nested n) := by
    simp only [nested, Function.iterate_succ_apply']
  show Carries P (nested n) (nested n) R Q
  suffices h : S (nested n) ∧ Carries P (nested n) (nested n) R Q from h.2
  induction n with
  | zero => exact ⟨hstuck, .raised _ _⟩
  | succ n ih =>
    rw [hsucc]
    exact ⟨hinner _ ih.1, hrule _ _ ih.1 ih.1 ih.2⟩

end

end Carries
end PirFrontend
