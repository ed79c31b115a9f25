import PirFrontend.Proofs.Pairing

/-!
Rules for two runs of an action side by side. A rule of the grammar is put together from reading,
building, sequence, repetition and nesting, and so is what holds of two runs of it.
-/
namespace PirFrontend

open PirFrontend.Parser (Place Block)

/-- What is left to read. -/
def Session.steps (s : Session) : List Step := s.tokens.steps

/-- The kinds of the first tokens ahead. -/
def Ahead : List TokenKind → List Step → Prop
  | [], _ => True
  | k :: ks, .ok t :: L => t.kind = k ∧ Ahead ks L
  | _ :: _, _ => False

namespace Pairing

/-- Two runs are in the middle of a line, and the kinds of some tokens ahead are known. -/
structure Mid (P : Pairing) (p : Place) (ks : List TokenKind) (s t : Session) : Prop where
  rel : P.rel p s.builder t.builder
  steps : P.mid s.steps t.steps
  ahead : Ahead ks s.steps

/-- Two runs are between two lines. -/
structure Between (P : Pairing) (p : Place) (s t : Session) : Prop where
  past : P.past p s.builder t.builder
  steps : P.start s.steps t.steps

variable {α β : Type}

/-- How two runs of a rule end that began at `s` and `t`. A rule that breaks does so in the middle
of a line, or, if it may look across the end of its line, when it has looked there. -/
inductive Ends (P : Pairing) (crossing : Prop) (p : Place) (s t : Session)
    (Q : α → α → Session → Session → Prop) :
    Except Failure α × Session → Except Failure α × Session → Prop
  | ok {a a' : α} {s' t' : Session} : s.tokens.Follows s'.tokens → t.tokens.Follows t'.tokens →
      Q a a' s' t' → P.Ends crossing p s t Q (.ok a, s') (.ok a', t')
  | broken {e e' : ParseError} {s' t' : Session} : s.tokens.Follows s'.tokens →
      t.tokens.Follows t'.tokens → P.err e e' → P.Mid p [] s' t' →
      P.Ends crossing p s t Q (.error (.broken e), s') (.error (.broken e'), t')
  | crossed {e e' : ParseError} {s' t' : Session} {L M : List Step} : crossing →
      s.tokens.Follows s'.tokens → t.tokens.Follows t'.tokens →
      afterLine s'.steps = (lookAt 0 L).2 → afterLine t'.steps = (lookAt 0 M).2 → P.askew L M →
      P.stray p s'.builder t'.builder →
      P.Ends crossing p s t Q (.error (.broken e), s') (.error (.broken e'), t')
  | stopped {f g : Fatal} {s' t' : Session} : P.stopped f s'.builder g t'.builder →
      P.Ends crossing p s t Q (.error (.fatal f), s') (.error (.fatal g), t')
  | left {f : Fatal} {s' : Session} {r : Except Failure α × Session} : P.aside f s'.builder →
      P.Ends crossing p s t Q (.error (.fatal f), s') r
  | right {f : Fatal} {t' : Session} {r : Except Failure α × Session} : P.aside f t'.builder →
      P.Ends crossing p s t Q r (.error (.fatal f), t')

/-- Two runs of a rule end as they should, and if both succeed, so that `Q` holds. -/
def Runs (P : Pairing) (crossing : Prop) (p : Place) (x y : Parser α) (s t : Session)
    (Q : α → α → Session → Session → Prop) : Prop :=
  P.Ends crossing p s t Q (x.run s) (y.run t)

/-- Two runs answer alike, and read and report without building. What is known of the tokens ahead
depends on the answer. -/
def Reads (P : Pairing) (crossing : Prop) (p : Place) (x y : Parser α) (s t : Session)
    (ks : α → List TokenKind) (R : α → Session → Session → Prop) : Prop :=
  P.Runs crossing p x y s t fun a a' s' t' =>
    a = a' ∧ s.builder.Within s'.builder ∧ P.Mid p (ks a) s' t' ∧ R a s' t'

/-- Two runs of a rule read to the end of a line. -/
def Completes (P : Pairing) (crossing : Prop) (p : Place) (x : Parser α) (s t : Session) : Prop :=
  P.Runs crossing p x x s t fun a a' s' t' => a = a' ∧ P.Between p s' t'

end Pairing

namespace Builder.Within

theorem refl (b : Builder) : b.Within b := ⟨rfl, rfl, rfl, List.prefix_refl _⟩

theorem trans {b b' b'' : Builder} (h : b.Within b') (h' : b'.Within b'') : b.Within b'' :=
  ⟨h'.unit.trans h.unit, h'.current.trans h.current,
    h'.pendingInstruction.trans h.pendingInstruction, h.diagnostics.trans h'.diagnostics⟩

theorem of_eq {b b' : Builder} (h : b' = b) : b.Within b' := h ▸ refl b

theorem reported (b : Builder) (ds : List Diagnostic) : b.Within (b.reported ds) :=
  ⟨rfl, rfl, rfl, List.prefix_append _ _⟩

end Builder.Within

namespace Pairing

/-- Both runs have looked and not built. -/
def Still (s t s' t' : Session) : Prop := s'.builder = s.builder ∧ t'.builder = t.builder

theorem Still.trans {s t s' t' s'' t'' : Session} (h : Still s t s' t') (h' : Still s' t' s'' t'') :
    Still s t s'' t'' :=
  ⟨h'.1.trans h.1, h'.2.trans h.2⟩

theorem Still.rel {P : Pairing} {p : Place} {s t s' t' : Session} (h : Still s t s' t')
    (hrel : P.rel p s.builder t.builder) : P.rel p s'.builder t'.builder := by
  rw [h.1, h.2]
  exact hrel

/-- Both runs have taken something. -/
def Shorter (s t s' t' : Session) : Prop :=
  s'.steps.length < s.steps.length ∧ t'.steps.length < t.steps.length

theorem Shorter.mono {s t s' t' s'' t'' : Session} (h : Shorter s' t' s'' t'')
    (hs : s.tokens.Follows s'.tokens) (ht : t.tokens.Follows t'.tokens) : Shorter s t s'' t'' :=
  ⟨Nat.lt_of_lt_of_le h.1 hs.steps_le, Nat.lt_of_lt_of_le h.2 ht.steps_le⟩

theorem Shorter.follows {s t s' t' s'' t'' : Session} (h : Shorter s t s' t')
    (hs : s'.tokens.Follows s''.tokens) (ht : t'.tokens.Follows t''.tokens) :
    Shorter s t s'' t'' :=
  ⟨Nat.lt_of_le_of_lt hs.steps_le h.1, Nat.lt_of_le_of_lt ht.steps_le h.2⟩

/-! Sequence -/

variable {α β : Type} {P : Pairing} {cr : Prop} {p : Place} {s t : Session}

theorem Ends.follows {u v : Session} {Q R : α → α → Session → Session → Prop}
    {r r' : Except Failure α × Session} (hs : s.tokens.Follows u.tokens)
    (ht : t.tokens.Follows v.tokens) (h : P.Ends cr p u v Q r r')
    (hQ : ∀ a a' s' t', u.tokens.Follows s'.tokens → v.tokens.Follows t'.tokens → Q a a' s' t' →
      R a a' s' t') : P.Ends cr p s t R r r' := by
  cases h with
  | ok hu hv hq => exact .ok (hs.trans hu) (ht.trans hv) (hQ _ _ _ _ hu hv hq)
  | broken hu hv he hm => exact .broken (hs.trans hu) (ht.trans hv) he hm
  | crossed hc hu hv hL hM ha hr =>
    exact .crossed hc (hs.trans hu) (ht.trans hv) hL hM ha hr
  | stopped h => exact .stopped h
  | left h => exact .left h
  | right h => exact .right h

theorem Runs.imp {x y : Parser α} {Q R : α → α → Session → Session → Prop}
    (h : P.Runs cr p x y s t Q) (hQ : ∀ a a' s' t', s.tokens.Follows s'.tokens →
      t.tokens.Follows t'.tokens → Q a a' s' t' → R a a' s' t') : P.Runs cr p x y s t R :=
  h.follows (.refl _) (.refl _) hQ

/-- A rule that looks across the end of its line stands where any rule may. -/
theorem Runs.cross {x y : Parser α} {Q : α → α → Session → Session → Prop} {cr' : Prop}
    (hc : cr → cr') (h : P.Runs cr p x y s t Q) : P.Runs cr' p x y s t Q := by
  unfold Runs at *
  revert h
  generalize x.run s = r
  generalize y.run t = r'
  intro h
  cases h with
  | ok hs ht hq => exact .ok hs ht hq
  | broken hs ht he hm => exact .broken hs ht he hm
  | crossed hcr hs ht hL hM ha hr => exact .crossed (hc hcr) hs ht hL hM ha hr
  | stopped h => exact .stopped h
  | left h => exact .left h
  | right h => exact .right h

theorem Runs.pure {a a' : α} {Q : α → α → Session → Session → Prop} (h : Q a a' s t) :
    P.Runs cr p (pure a) (pure a') s t Q :=
  .ok (.refl _) (.refl _) h

theorem Runs.bind {x y : Parser α} {f g : α → Parser β} {Q : α → α → Session → Session → Prop}
    {R : β → β → Session → Session → Prop} (hx : P.Runs cr p x y s t Q)
    (hf : ∀ a a' s' t', s.tokens.Follows s'.tokens → t.tokens.Follows t'.tokens →
      Q a a' s' t' → P.Runs cr p (f a) (g a') s' t' R) :
    P.Runs cr p (x >>= f) (y >>= g) s t R := by
  unfold Runs at *
  rw [run_bind, run_bind]
  revert hx
  generalize x.run s = r
  generalize y.run t = r'
  intro hx
  cases hx with
  | ok hs ht hq => exact (hf _ _ _ _ hs ht hq).follows hs ht fun _ _ _ _ _ _ h => h
  | broken hs ht he hm => exact .broken hs ht he hm
  | crossed hcr hs ht hL hM ha hr => exact .crossed hcr hs ht hL hM ha hr
  | stopped h => exact .stopped h
  | left h => exact .left h
  | right h => exact .right h

theorem Reads.bind {x y : Parser α} {f g : α → Parser β} {ks : α → List TokenKind}
    {R : α → Session → Session → Prop} {Q : β → β → Session → Session → Prop}
    (hx : P.Reads cr p x y s t ks R)
    (hf : ∀ a s' t', s.tokens.Follows s'.tokens → t.tokens.Follows t'.tokens →
      s.builder.Within s'.builder → P.Mid p (ks a) s' t' → R a s' t' →
      P.Runs cr p (f a) (g a) s' t' Q) : P.Runs cr p (x >>= f) (y >>= g) s t Q := by
  apply Runs.bind hx
  rintro a _ s' t' hs ht ⟨rfl, hw, hm, hr⟩
  exact hf a s' t' hs ht hw hm hr

/-- Reading on after reading. -/
theorem Reads.then {x y : Parser α} {f g : α → Parser β} {ks : α → List TokenKind}
    {R : α → Session → Session → Prop} {ks' : β → List TokenKind}
    {R' : β → Session → Session → Prop} (hx : P.Reads cr p x y s t ks R)
    (hf : ∀ a s' t', s.tokens.Follows s'.tokens → t.tokens.Follows t'.tokens →
      s.builder.Within s'.builder → P.Mid p (ks a) s' t' → R a s' t' →
      P.Reads cr p (f a) (g a) s' t' ks' R') : P.Reads cr p (x >>= f) (y >>= g) s t ks' R' := by
  refine hx.bind fun a s' t' hs ht hw hm hr => (hf a s' t' hs ht hw hm hr).imp ?_
  rintro b _ u v - - ⟨rfl, hw', hm', hr'⟩
  exact ⟨rfl, hw.trans hw', hm', hr'⟩

theorem Reads.pure {a : α} {ks : α → List TokenKind} {R : α → Session → Session → Prop}
    (hm : P.Mid p (ks a) s t) (hr : R a s t) : P.Reads cr p (pure a) (pure a) s t ks R :=
  Runs.pure ⟨rfl, .refl _, hm, hr⟩

theorem Reads.map {x y : Parser α} {ks : List TokenKind}
    {R : α → Session → Session → Prop} (h : P.Reads cr p x y s t (fun _ => ks) R) (g : α → β) :
    P.Reads cr p (g <$> x) (g <$> y) s t (fun _ => ks) fun b s' t' => ∃ a, b = g a ∧ R a s' t' := by
  show P.Reads cr p (x >>= fun a => Pure.pure (g a)) (y >>= fun a => Pure.pure (g a)) s t _ _
  apply h.then
  intro a s' t' _ _ _ hm hr
  exact Reads.pure hm ⟨a, rfl, hr⟩

theorem Reads.imp {x y : Parser α} {ks ks' : α → List TokenKind}
    {R R' : α → Session → Session → Prop} (h : P.Reads cr p x y s t ks R)
    (hR : ∀ a s' t', s.builder.Within s'.builder → P.Mid p (ks a) s' t' → R a s' t' →
      P.Mid p (ks' a) s' t' ∧ R' a s' t') : P.Reads cr p x y s t ks' R' := by
  apply Runs.imp h
  rintro a _ s' t' - - ⟨rfl, hw, hm, hr⟩
  obtain ⟨hm', hr'⟩ := hR a s' t' hw hm hr
  exact ⟨rfl, hw, hm', hr'⟩

/-- Reading on with the same builder. -/
theorem Runs.within {x y : Parser α} {s' t' : Session} {ks : α → List TokenKind}
    {R : α → Session → Session → Prop} (hb : s'.builder = s.builder)
    (h : P.Reads cr p x y s' t' ks R) :
    P.Runs cr p x y s' t' fun a a' s'' t'' =>
      a = a' ∧ s.builder.Within s''.builder ∧ P.Mid p (ks a) s'' t'' ∧ R a s'' t'' := by
  apply Runs.imp h
  rintro a _ s'' t'' - - ⟨rfl, hw, hm, hr⟩
  exact ⟨rfl, hb ▸ hw, hm, hr⟩

/-! Repetition and nesting -/

/-- A loop keeps an invariant if each round does and each round but the last reads something. -/
theorem Runs.iterate {step step' : β → Parser (β × Bool)} {b : β}
    (I : β → Session → Session → Prop)
    {Q : β → β → Session → Session → Prop}
    (hstep : ∀ b s t, I b s t → P.Runs cr p (step b) (step' b) s t fun r r' s' t' => r = r' ∧
      if r.2 then I r.1 s' t' ∧ Shorter s t s' t' else Q r.1 r.1 s' t') (h : I b s t) :
    P.Runs cr p (Act.iterate step b) (Act.iterate step' b) s t Q := by
  induction hn : s.size using Nat.strongRecOn generalizing b s t with
  | ind n ih =>
  -- The induction is on what is left of the first text: a round that goes on makes it shorter.
  have hs := hstep b s t h
  unfold Runs at *
  show P.Ends cr p s t Q (Act.iterate step b s) (Act.iterate step' b t)
  rw [Act.iterate, Act.iterate]
  change P.Ends cr p s t _ (step b s) (step' b t) at hs
  revert hs
  generalize step b s = r
  generalize step' b t = r'
  intro hs
  cases hs with
  | @ok r _ s' t' hs ht hq =>
    obtain ⟨rfl, hq⟩ := hq
    obtain ⟨b', go⟩ := r
    cases go with
    | false => exact .ok hs ht hq
    | true =>
      obtain ⟨hI, hls, hlt⟩ := hq
      -- Both rounds were checked to have read something, and both have.
      have hss : s'.size < s.size := hs.size_lt hls
      have htt : t'.size < t.size := ht.size_lt hlt
      simp only [hss, htt, if_true]
      exact (ih s'.size (hn ▸ hss) hI rfl).follows hs ht fun _ _ _ _ _ _ h => h
  | broken hs ht he hm => exact .broken hs ht he hm
  | crossed hcr hs ht hL hM ha hr => exact .crossed hcr hs ht hL hM ha hr
  | stopped h => exact .stopped h
  | left h => exact .left h
  | @right f t' r h => exact .right h

theorem Runs.repeatWhile {step : Parser Bool} (I : Session → Session → Prop)
    (hstep : ∀ s t, I s t → P.Runs cr p step step s t fun go go' s' t' => go = go' ∧
      I s' t' ∧ (go = true → Shorter s t s' t')) (h : I s t) :
    P.Runs cr p (Act.repeatWhile step) (Act.repeatWhile step) s t fun _ _ s' t' => I s' t' := by
  refine Runs.iterate (fun _ => I) (fun _ s t h => (hstep s t h).bind ?_) h
  rintro (_ | _) _ s' t' - - ⟨rfl, hI, hshort⟩
  · exact .pure ⟨rfl, hI⟩
  · exact .pure ⟨rfl, hI, hshort rfl⟩

/-- A loop that reads and builds nothing. -/
theorem Reads.iterate {step : β → Parser (β × Bool)} {b : β} {T : Builder → β → Prop}
    (hstep : ∀ b s t, P.Mid p [] s t → T s.builder b →
      P.Reads cr p (step b) (step b) s t (fun _ => []) fun r s' t' =>
        T s'.builder r.1 ∧ (r.2 = true → Shorter s t s' t'))
    (h : P.Mid p [] s t) (hb : T s.builder b) :
    P.Reads cr p (Act.iterate step b) (Act.iterate step b) s t (fun _ => [])
      fun b s' _ => T s'.builder b := by
  refine Runs.iterate (fun b s' t' => s.builder.Within s'.builder ∧ P.Mid p [] s' t' ∧
    T s'.builder b) ?_ ⟨.refl _, h, hb⟩
  rintro b s' t' ⟨hw, hm, hb⟩
  apply Runs.imp (hstep b s' t' hm hb)
  rintro ⟨b', go⟩ _ s'' t'' - - ⟨rfl, hw', hm', hb', hshort⟩
  refine ⟨rfl, ?_⟩
  cases go with
  | false => exact ⟨rfl, hw.trans hw', hm', hb'⟩
  | true => exact ⟨⟨hw.trans hw', hm', hb'⟩, hshort rfl⟩

/-- A rule that contains itself keeps to what it keeps to if the rule inside does. -/
theorem Runs.nest {rule : Parser α → Parser α} (I : Session → Session → Prop)
    {Q : Session → Session → α → α → Session → Session → Prop}
    (hrule : ∀ inner inner' s t, I s t →
      (∀ s' t', s'.tokens.size < s.tokens.size → t'.tokens.size < t.tokens.size → I s' t' →
        P.Runs cr p inner inner' s' t' (Q s' t')) →
      P.Runs cr p (rule inner) (rule inner') s t (Q s t)) (h : I s t) :
    P.Runs cr p (Act.nest rule) (Act.nest rule) s t (Q s t) := by
  induction hn : s.size using Nat.strongRecOn generalizing s t with
  | ind n ih =>
  unfold Runs
  show P.Ends cr p s t _ (Act.nest rule s) (Act.nest rule t)
  rw [Act.nest, Act.nest]
  apply hrule _ _ s t h
  intro s' t' hs ht hI
  unfold Runs
  show P.Ends cr p s' t' _ (if s'.size < s.size then _ else _) (if t'.size < t.size then _ else _)
  have hs' : s'.size < s.size := hs
  have ht' : t'.size < t.size := ht
  simp only [hs', ht', if_true]
  exact ih s'.size (hn ▸ hs') hI rfl

end Pairing
end PirFrontend
