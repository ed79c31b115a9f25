import PirFrontend.Proofs.Mirrors
import PirFrontend.Proofs.Parting

/-!
How reading comes to a line. Where two texts part at a line, reading of the second comes to what
stands in its place, and has built the same by then.
-/
namespace PirFrontend

open PirFrontend.Parser (Place Block)

/-! Empty lines -/

namespace Blanks

variable {L M N : List Step}

theorem length_le (h : Blanks L M) : M.length ≤ L.length := by
  induction h with
  | refl => exact Nat.le_refl _
  | newline _ _ ih => exact Nat.le_succ_of_le ih

theorem eq_of_length_le (h : Blanks L M) (hle : L.length ≤ M.length) : L = M := by
  cases h with
  | refl => rfl
  | newline _ h =>
    have := h.length_le
    simp only [List.length_cons] at hle
    omega

/-- Behind all empty lines there is one place. -/
theorem eq_of_filled (hM : Blanks L M) (hN : Blanks L N) (hfM : Filled M) (hfN : Filled N) :
    M = N := by
  induction hM with
  | refl L =>
    cases hN with
    | refl => rfl
    | newline ht _ =>
      rw [hfM _ _ rfl] at ht
      cases ht
  | newline ht _ ih =>
    cases hN with
    | refl =>
      rw [hfN _ _ rfl] at ht
      cases ht
    | newline _ hN => exact ih hN hfM

end Blanks

/-! Coming to a line -/

/-- Reading lines from a place on comes to another place. Each line on the way is read, or mended
if it is broken. -/
inductive Parser.Comes : Place → Session → Place → Session → Prop
  | refl (p : Place) (s : Session) : Comes p s p s
  | line {p q r : Place} {s s' s'' : Session} :
      (Mended.attempt (line p) (some p)).run s = (.ok (some q), s') → Comes q s' r s'' →
      Comes p s r s''

namespace Parser.Comes

variable {p q : Place} {s s' : Session}

theorem follows (h : Comes p s q s') : s.tokens.Follows s'.tokens := by
  induction h with
  | refl => exact .refl _
  | line hrun _ ih => exact (attempt_follows hrun).trans ih

theorem reaches (h : Comes p s q s') : Reaches p s q s' := by
  induction h with
  | refl p s => exact .refl p s
  | line hrun _ ih => exact .line hrun ih

/-- When nothing was read, no line was, or places were left for what ends a subroutine. -/
theorem of_length_le (h : Comes p s q s') (hle : s.steps.length ≤ s'.steps.length) :
    p = q ∧ s = s' ∨ q.depth < p.depth ∧ Outward s'.steps := by
  induction h with
  | refl => exact .inl ⟨rfl, rfl⟩
  | @line p q r s s₁ s' hrun hcomes ih =>
    have hle' : s'.steps.length ≤ s₁.steps.length := hcomes.follows.steps_le
    obtain ⟨-, hlt | ⟨hdepth, hout⟩⟩ := attempt_advances hrun
    · omega
    · have hle₁ : s₁.steps.length ≤ s.steps.length := (attempt_follows hrun).steps_le
      obtain ⟨rfl, rfl⟩ | ⟨hdepth', hout'⟩ := ih (Nat.le_trans hle₁ hle)
      · exact .inr ⟨hdepth, hout⟩
      · exact .inr ⟨Nat.lt_trans hdepth' hdepth, hout'⟩

end Parser.Comes

/-! Two texts that part -/

section

variable {A : Likeness} {X Y K N : List Step}

theorem Forking.length_lt (h : Forking A X Y K N) : X.length < K.length := by
  induction h with
  | newline _ _ => exact Nat.lt_succ_self _
  | step _ _ ih => exact Nat.lt_succ_of_lt ih

theorem Fork.length_le (h : Fork A X Y K N) : X.length ≤ K.length := by
  obtain h | ⟨rfl, -⟩ := h
  · exact Nat.le_of_lt h.length_lt
  · exact Nat.le_refl _

/-- In the middle of a line the texts have not parted yet. -/
theorem InLine.length_lt {tok : Token → Token → Prop} {err : ParseError → ParseError → Prop}
    (h : InLine tok err (Fork A X Y) K N) (hX : X ≠ []) : X.length < K.length := by
  induction h with
  | nil h => exact absurd (List.eq_nil_of_length_eq_zero (Nat.le_zero.1 h.length_le)) hX
  | newline _ _ h => exact Nat.lt_succ_of_le h.length_le
  | token _ _ _ ih => exact Nat.lt_succ_of_lt ih
  | fault _ _ ih => exact Nat.lt_succ_of_lt ih

end

/-- Where reading of one text comes to the line at which two texts part, reading of the other one
comes to what stands there instead, if no line on the way sets the two apart. -/
theorem Parser.Comes.beside {P : Pairing} [P.Continuing] {A : Likeness} {X Y : List Step}
    {p₀ p q : Place} {t₀ s s₀ t : Session} (hstart : P.start = Fork A X Y)
    (haskew : P.askew = Forked X Y) (hX : X ≠ []) (hfilled : Filled X) (hout : ¬Outward X)
    (hline : ∀ {p q : Place} {s s' t : Session}, Reaches p₀ t₀ p t → P.Mid p [] s t →
      Filled s.steps → Filled t.steps →
      (Mended.attempt (Parser.line p) (some p)).run s = (.ok (some q), s') →
      ∃ t', Reaches p₀ t₀ q t' ∧ P.rel q s'.builder t'.builder ∧
        (P.start s'.steps t'.steps ∨ P.mid s'.steps t'.steps))
    (hcomes : Comes p s q s₀) (hblank : Blanks s₀.steps X) (hreach : Reaches p₀ t₀ p t)
    (hrel : P.rel p s.builder t.builder)
    (hsteps : P.start s.steps t.steps ∨ P.mid s.steps t.steps) :
    ∃ t', Reaches p₀ t₀ q t' ∧ P.rel q s₀.builder t'.builder ∧ t'.steps = Y := by
  have hahead {K N : List Step} (h : P.mid K N) : X.length < K.length := by
    unfold Pairing.mid at h
    rw [hstart] at h
    exact h.length_lt hX
  -- Line by line: both texts are the same up to the line in question, so the lines on the way are
  -- read alike.
  induction hcomes generalizing t with
  | refl p s =>
    obtain ⟨s₁, t₁, hL, hsb, -, -, ht₁, hrel₁, hor⟩ := Pairing.meet_lines hrel hsteps
    rw [haskew] at hor
    -- The texts part here, or they are at the same line that is no empty one.
    obtain ⟨-, hY⟩ | ⟨hmid, hf, -⟩ := hor
    · exact ⟨t₁, hreach.trans ht₁, hsb ▸ hrel₁, hY⟩
    · have hlt := hahead hmid.steps
      rw [hL.eq_of_filled hblank hf hfilled] at hlt
      exact absurd hlt (Nat.lt_irrefl _)
  | @line p r q s s₁ s₀ hrun hcomes ih =>
    obtain ⟨s', t₁, -, -, hsame, -, ht₁, hrel₁, hor⟩ := Pairing.meet_lines hrel hsteps
    rw [attempt_congr hsame] at hrun
    rw [haskew] at hor
    obtain ⟨rfl, hY⟩ | ⟨hmid, hf, hf'⟩ := hor
    · -- The line was reached before, so nothing was read since.
      have hcomes' : Comes p s' q s₀ := .line hrun hcomes
      obtain ⟨rfl, rfl⟩ | ⟨-, hout'⟩ := hcomes'.of_length_le hblank.length_le
      · exact ⟨t₁, hreach.trans ht₁, hrel₁, hY⟩
      · have hback : s₀.steps.length ≤ s'.steps.length := hcomes'.follows.steps_le
        rw [hblank.eq_of_length_le hback] at hout'
        exact absurd hout' hout
    · obtain ⟨t₂, hreach₂, hrel₂, hsteps₂⟩ := hline (hreach.trans ht₁) hmid hf hf' hrun
      exact ih hblank hreach₂ hrel₂ hsteps₂

/-- Two runs that build the same from texts that go on alike until they part. -/
abbrev Pairing.forks (o : BuildOptions) (X Y : List Step) : Pairing :=
  twins .built o (Fork .built X Y) (Forked X Y)

/-- Where reading of one text comes to the line at which two texts part, reading of the other one
comes to what stands there instead, unless too many problems are in it. -/
theorem Parser.Comes.fork {o : BuildOptions} {u v : Token} {X Y : List Step} {p q : Place}
    {s s₀ t t' : Session} (hcomes : Comes p s q s₀) (hblank : Blanks s₀.steps (.ok u :: X))
    (hu : u.kind.isNewline = false) (hout : ¬Outward (.ok u :: X))
    (hrel : s.builder.Twin .built o p t.builder)
    (hsteps : (Pairing.forks o (.ok u :: X) (.ok v :: Y)).start s.steps t.steps ∨
      (Pairing.forks o (.ok u :: X) (.ok v :: Y)).mid s.steps t.steps)
    (ht : (linesFrom p).run t = (.ok (), t')) :
    ∃ t₀, Reaches p t q t₀ ∧ s₀.builder.Twin .built o q t₀.builder ∧ t₀.steps = .ok v :: Y := by
  have := Pairing.twins_continuing (o := o)
    (textual_fork (A := .built) (X := .ok u :: X) (Y := .ok v :: Y) nofun)
  have hfilled : Filled (.ok u :: X) := by
    rintro _ _ ⟨⟩
    exact hu
  have hX : (.ok u :: X : List Step) ≠ [] := nofun
  refine hcomes.beside rfl rfl hX hfilled hout ?_ hblank (.refl p t) hrel hsteps
  intro p₁ q₁ s₁ s₂ t₁ hreach hmid hf hf' hrun
  rw [hreach.run_linesFrom] at ht
  have hatt := Pairing.line_attempted hmid hf hf'
  have hnext := PirFrontend.run_linesFrom p₁ t₁
  rw [hrun] at hatt
  generalize hrun' : (Mended.attempt (Parser.line p₁) (some p₁)).run t₁ = r' at hatt hnext
  cases hatt with
  | @next _ _ t₂ hrel hst => exact ⟨t₂, hreach.trans (.line hrun' (.refl _ _)), hrel, hst⟩
  | right _ => cases hnext.symm.trans ht
  -- The line in front of the fork looked ahead into it and broke. Mended, it ends where the
  -- texts part.
  | @crossed _ _ s₃ t₃ e e' L M _ he he' hL hM ha hrel =>
    obtain ⟨rfl, rfl⟩ := ha
    obtain ⟨b, hb, hr, rfl⟩ := attempt_broken he hrun
    obtain rfl := Option.some.inj hr
    obtain ⟨c, hc, ht₂⟩ := (Reaches.refl _ t₁).mended he' ht
    have hfork : Fork .built (.ok u :: X) (.ok v :: Y)
        (Session.steps ⟨s₃.tokens.skipLine.2, b.dropInstruction⟩)
        (Session.steps ⟨t₃.tokens.skipLine.2, c.dropInstruction⟩) :=
      .inr ⟨(TokenStream.steps_skipLine _).trans hL, (TokenStream.steps_skipLine _).trans hM⟩
    exact ⟨_, hreach.trans ht₂, twin_mended hrel hb hc, .inl hfork⟩

/-! Two texts that part at tokens of one kind -/

/-- Two runs that have the same builder at every step, on texts that go on alike until they part. -/
def Mirror.forks (X Y : List Step) (askew : List Step → List Step → Prop) : Mirror where
  inv _ := True
  place _ := True
  charged _ := True
  start := Fork .exact X Y
  askew := askew

section

variable {u v : Token} {X Y K N : List Step} {askew : List Step → List Step → Prop}

theorem Mirror.forks_cases (h : Fork .exact X (.ok v :: Y) K N) :
    (forks X (.ok v :: Y) askew).pairing.mid K N ∨ Forked X (.ok v :: Y) K N :=
  start_cases (M := forks X (.ok v :: Y) askew) (textual_fork nofun) (fun _ => trivial)
    (fun _ => trivial) h

/-- A look across the end of a line meets tokens of one kind even where the texts part. -/
theorem Mirror.forks_faithful (h : u.kind = v.kind) :
    (forks (.ok u :: X) (.ok v :: Y) askew).Faithful where
  charges _ _ := trivial
  setLine _ _ := trivial
  charged _ := trivial
  glimpse hstart := by
    left
    obtain hmid | ⟨rfl, rfl⟩ := forks_cases hstart
    · have htextual := textual_fork (A := .exact) (X := .ok u :: X) (Y := .ok v :: Y) nofun
      exact Pairing.glimpse_mid hmid hstart (·.1.like) htextual.fault
    · exact .token h

/-- Where the line at which two texts part begins with tokens of one kind, reading of both comes
there with the same builder. -/
theorem Parser.Comes.fork_exact {p q : Place} {s s₀ t : Session} (hcomes : Comes p s q s₀)
    (hblank : Blanks s₀.steps (.ok u :: X)) (hu : u.kind.isNewline = false)
    (hout : ¬Outward (.ok u :: X)) (h : u.kind = v.kind) (hb : s.builder = t.builder)
    (hsteps : Fork .exact (.ok u :: X) (.ok v :: Y) s.steps t.steps) :
    ∃ t₀, Reaches p t q t₀ ∧ t₀.builder = s₀.builder ∧ t₀.steps = .ok v :: Y := by
  -- The same mirror twice: with the fork in it reading goes on behind each line, and without it
  -- no line on the way stops one run alone.
  let fork := Mirror.forks (.ok u :: X) (.ok v :: Y) (Forked (.ok u :: X) (.ok v :: Y))
  let level := Mirror.forks (.ok u :: X) (.ok v :: Y) fun _ _ => False
  have : fork.pairing.Continuing :=
    { toLawful := (Mirror.forks_faithful h).lawful, start_cases := Mirror.forks_cases }
  have : level.pairing.Lawful := (Mirror.forks_faithful h).lawful
  have hfilled : Filled (.ok u :: X) := by
    rintro _ _ ⟨⟩
    exact hu
  have hX : (.ok u :: X : List Step) ≠ [] := nofun
  refine Exists.imp ?_ (hcomes.beside (P := fork.pairing) rfl rfl hX hfilled hout ?_ hblank
    (.refl p t) ⟨hb, trivial⟩ (.inl hsteps))
  · rintro t₀ ⟨hreach, hrel, hY⟩
    exact ⟨hreach, hrel.1.symm, hY⟩
  intro p₁ q₁ s₁ s₂ t₁ hreach hmid hf hf' hrun
  have hlevel : level.pairing.Mid p₁ [] s₁ t₁ := ⟨hmid.rel, hmid.steps, trivial⟩
  have hatt := Pairing.line_attempted hlevel hf hf'
  rw [hrun] at hatt
  generalize hrun' : (Mended.attempt (Parser.line p₁) (some p₁)).run t₁ = r' at hatt
  cases hatt with
  | next hrel hst => exact ⟨_, hreach.trans (.line hrun' (.refl _ _)), hrel, hst⟩
  | right ha => exact ha.2.elim fun _ ⟨_, hf⟩ => hf.elim
  | crossed _ _ _ _ _ ha _ => exact ha.elim

/-- Reading of a text comes to the part behind `front`, with this builder. -/
structure Parser.Arrives (front rest : String) (o : BuildOptions) (p : Place) (b : Builder)
    (s : Session) : Prop where
  reaches : Reaches .top (Session.start (front ++ rest) o) p s
  steps : s.steps = (Lexer.behind front rest).steps
  builder : s.builder = b

/-- Where reading comes to a line of a text, it comes there with the same builder when the text goes
on with a token of the same kind instead. -/
theorem Parser.Comes.exchange {a x y : String} {o : BuildOptions} {p : Place} {s : Session}
    (hcomes : Comes .top (Session.start (a ++ "\n" ++ x) o) p s)
    (hblank : Blanks s.steps (Lexer.behind (a ++ "\n") x).steps)
    (hx : (Lexer.behind (a ++ "\n") x).steps = .ok u :: X)
    (hy : (Lexer.behind (a ++ "\n") y).steps = .ok v :: Y) (hu : u.kind.isNewline = false)
    (hout : ¬Outward (.ok u :: X)) (h : u.kind = v.kind) :
    ∃ s' t', Arrives (a ++ "\n") x o p s.builder s' ∧ Arrives (a ++ "\n") y o p s.builder t' := by
  have hb : (Session.start (a ++ "\n" ++ x) o).builder =
      (Session.start (a ++ "\n" ++ y) o).builder := rfl
  have hfork : Fork .exact (.ok u :: X) (.ok v :: Y) (Session.start (a ++ "\n" ++ x) o).steps
      (Session.start (a ++ "\n" ++ y) o).steps := by
    rw [Lexer.steps_source, Lexer.steps_source, hx, hy]
    exact .inl (forking_append _ (.refl _) rfl _ _)
  obtain ⟨t', ht', htb, hts⟩ := hcomes.fork_exact (hx ▸ hblank) hu hout h hb hfork
  obtain ⟨s', hs', hsb, -, hreach⟩ := Parser.reaches_blanks hblank p
  exact ⟨s', t', ⟨hcomes.reaches.trans hreach, hs', hsb⟩, ht', hts.trans hy.symm, htb⟩

end

end PirFrontend
