import PirFrontend.Proofs.Words

/-!
Empty lines. A rule for a line passes over the empty lines in front of it, so what it does depends
only on what is behind them.
-/
namespace PirFrontend

open PirFrontend.Parser (Place Block)

/-- The first step, if there is one, is not a newline. -/
def Filled (L : List Step) : Prop := ∀ t M, L = .ok t :: M → t.kind.isNewline = false

/-- Some newlines in front are left out. -/
inductive Blanks : List Step → List Step → Prop
  | refl (L : List Step) : Blanks L L
  | newline {t : Token} {L M : List Step} : t.kind.isNewline = true → Blanks L M →
      Blanks (.ok t :: L) M

/-- Takes a newline if it is next. -/
def takeNewline : List Step → Except LexFault Bool × List Step
  | [] => (.ok false, [])
  | .error f :: L => (.error f, L)
  | .ok t :: L => if t.kind.isNewline then (.ok true, L) else (.ok false, .ok t :: L)

namespace Session

theorem run_eatNewline (s : Session) :
    ∃ s', Parser.eatNewline.run s =
        ((takeNewline s.steps).1.mapError fun f => .broken (.ofFault f), s') ∧
      s'.steps = (takeNewline s.steps).2 ∧ s'.builder = s.builder ∧
      s.tokens.Follows s'.tokens := by
  obtain ⟨s₁, hrun, hs, hb, hF⟩ := s.run_peek (Nat.zero_le _)
  unfold Parser.eatNewline
  rw [run_bind, TokenStream.consumeIf, Pairing.run_lift_reading_bind, run_bind, hrun]
  cases hL : s.steps with
  | nil =>
    rw [hL] at hs
    exact ⟨s₁, rfl, hs, hb, hF⟩
  | cons step L =>
  rw [hL] at hs
  cases step with
  | error f => exact ⟨s₁, rfl, hs, hb, hF⟩
  | ok t =>
    simp only [lookAt] at hs
    -- Only a newline is taken; anything else stays.
    cases hn : t.kind.isNewline with
    | false =>
      simp only [lookAt, takeNewline, mapError_ok, hn]
      exact ⟨s₁, rfl, hs, hb, hF⟩
    | true =>
      obtain ⟨s₂, hrun₂, hs₂, hb₂, hF₂⟩ := s₁.run_next
      rw [hs] at hrun₂ hs₂
      simp only [lookAt, takeNewline, mapError_ok, hn, if_true]
      rw [hrun₂]
      exact ⟨s₂, rfl, hs₂, hb₂.trans hb, hF.trans hF₂⟩

theorem run_skipNewlines (s : Session) : Parser.skipNewlines.run s =
    match Parser.eatNewline.run s with
    | (.ok true, s') => if s'.size < s.size then Parser.skipNewlines.run s' else (.error stuck, s')
    | (.ok false, s') => (.ok (), s')
    | (.error e, s') => (.error e, s') := by
  have hstep : (Parser.eatNewline >>= fun b => pure ((), b) : Parser (Unit × Bool)) s =
      match Parser.eatNewline.run s with
      | (.ok b, s') => (.ok ((), b), s')
      | (.error e, s') => (.error e, s') := by
    apply (run_bind _ _ s).trans
    generalize Parser.eatNewline.run s = r
    obtain ⟨e | b, s'⟩ := r <;> rfl
  show Act.iterate _ _ s = _
  rw [Act.iterate, hstep]
  generalize Parser.eatNewline.run s = r
  obtain ⟨e | (_ | _), s'⟩ := r <;> rfl

/-- Newlines in front make no difference. -/
theorem skipNewlines_blanks {s : Session} {L : List Step} (h : Blanks s.steps L) :
    ∃ s', s'.steps = L ∧ s'.builder = s.builder ∧ s.tokens.Follows s'.tokens ∧
      Parser.skipNewlines.run s = Parser.skipNewlines.run s' := by
  generalize hM : s.steps = M at h
  induction h generalizing s with
  | refl L => exact ⟨s, hM, rfl, .refl _, rfl⟩
  | newline hn _ ih =>
    obtain ⟨s₁, hrun, hs, hb, hF⟩ := s.run_eatNewline
    rw [hM] at hrun hs
    simp only [takeNewline, hn, if_true] at hrun hs
    obtain ⟨s', hs', hb', hF', hrun'⟩ := ih hs
    refine ⟨s', hs', hb'.trans hb, hF.trans hF', ?_⟩
    have hlt : s₁.size < s.size := hF.size_lt (by
      show s₁.steps.length < s.steps.length
      rw [hs, hM]
      exact Nat.lt_succ_self _)
    rw [run_skipNewlines, hrun]
    simp only [mapError_ok, hlt, if_true]
    exact hrun'

/-- Where no newline is next, passing over empty lines is a look at the next token. -/
theorem skipNewlines_filled {s : Session} (h : Filled s.steps) :
    ∃ s', Parser.skipNewlines.run s =
        ((lookAt 0 s.steps).1.map (fun _ => ()) |>.mapError fun f => .broken (.ofFault f), s') ∧
      s'.steps = (lookAt 0 s.steps).2 ∧ s'.builder = s.builder ∧ s.tokens.Follows s'.tokens := by
  obtain ⟨s', hrun, hs, hb, hF⟩ := s.run_eatNewline
  rw [run_skipNewlines, hrun]
  refine ⟨s', ?_⟩
  cases hL : s.steps with
  | nil =>
    rw [hL] at hs
    exact ⟨rfl, hs, hb, hF⟩
  | cons step L =>
  rw [hL] at hs
  cases step with
  | error f => exact ⟨rfl, hs, hb, hF⟩
  | ok t =>
    have hn := h t L hL
    simp only [takeNewline, hn] at hs ⊢
    exact ⟨rfl, hs, hb, hF⟩

end Session

namespace Pairing

variable {P : Pairing} {cr : Prop} {p : Place} {s t : Session} {ks : List TokenKind}

theorem skipNewlines_runs (h : P.Mid p ks s t) (hs : Filled s.steps) (ht : Filled t.steps) :
    P.Runs cr p Parser.skipNewlines Parser.skipNewlines s t fun _ _ s' t' => P.Mid p ks s' t' := by
  obtain ⟨s', hrun, hs', hb, hF⟩ := s.skipNewlines_filled hs
  obtain ⟨t', hrun', ht', hb', hF'⟩ := t.skipNewlines_filled ht
  have hrel : P.rel p s'.builder t'.builder := hb ▸ hb' ▸ h.rel
  have hl := h.steps.looks_zero
  unfold Runs
  rw [hrun, hrun']
  clear hrun hrun'
  generalize lookAt 0 s.steps = r at *
  generalize lookAt 0 t.steps = r' at *
  cases hl with
  | none => exact .ok hF hF' ⟨hrel, hs' ▸ ht' ▸ h.steps, hs' ▸ h.ahead⟩
  | token _ => exact .ok hF hF' ⟨hrel, hs' ▸ ht' ▸ h.steps, hs' ▸ h.ahead⟩
  | fault he hm => exact .broken hF hF' he ⟨hrel, hs' ▸ ht' ▸ hm, trivial⟩

/-- Behind empty lines, two texts go on with the same line or with lines that differ. -/
def Meet (P : Pairing) (L M : List Step) : Prop :=
  ∃ L' M', Blanks L L' ∧ Blanks M M' ∧ (P.askew L' M' ∨ P.mid L' M' ∧ Filled L' ∧ Filled M')

theorem mid_meet [P.Readable] {L M : List Step} (h : P.mid L M)
    (hst : ∀ L' M', L'.length < L.length → P.start L' M' → P.Meet L' M') : P.Meet L M := by
  cases h with
  | nil h => exact ⟨[], [], .refl _, .refl _, .inr ⟨.nil h, nofun, nofun⟩⟩
  | fault he hm => exact ⟨_, _, .refl _, .refl _, .inr ⟨.fault he hm, nofun, nofun⟩⟩
  | @token t u L M htok ht hm =>
    have hu : u.kind.isNewline = false := (Readable.like htok).kind ▸ ht
    refine ⟨_, _, .refl _, .refl _, .inr ⟨.token htok ht hm, ?_, ?_⟩⟩
    · rintro _ _ ⟨⟩
      exact ht
    · rintro _ _ ⟨⟩
      exact hu
  | @newline t u L M htok ht h =>
    have hu : u.kind.isNewline = true := (Readable.like htok).kind ▸ ht
    obtain ⟨L', M', hL, hM, hor⟩ := hst L M (Nat.lt_succ_self _) h
    exact ⟨L', M', .newline ht hL, .newline hu hM, hor⟩

theorem start_meet [P.Continuing] {L M : List Step} (h : P.start L M) : P.Meet L M := by
  induction hn : L.length using Nat.strongRecOn generalizing L M with
  | ind n ih =>
  obtain hm | ha := Continuing.start_cases h
  · exact mid_meet hm fun L' M' hlt hst => ih L'.length (hn ▸ hlt) hst rfl
  · exact ⟨L, M, .refl _, .refl _, .inl ha⟩

theorem meet [P.Continuing] {L M : List Step} (h : P.start L M ∨ P.mid L M) : P.Meet L M := by
  obtain hst | hm := h
  · exact start_meet hst
  · exact mid_meet hm fun _ _ _ => start_meet

end Pairing
end PirFrontend
