import PirFrontend.Proofs.RenamedDeclarations
import PirFrontend.Proofs.Respelling

/-!
Reading under other names. Where the first text has a name the second one has its other name, and
that may be the name of a type. So the two texts have to be told apart in one place only, directly
behind a directive that declares: there the name of a type means the type, and is not replaced.
-/
namespace PirFrontend

open HasClean

/-- Whether a type stands behind the token. -/
def TokenKind.declares : TokenKind → Bool
  | .directive .localDecl | .directive .param | .directive .const | .directive .globalConst => true
  | _ => false

/-- Whether the text of the token may be a name of the program. -/
def TokenKind.isWord : TokenKind → Bool
  | .identifier | .keyword _ | .label => true
  | _ => false

theorem TokenKind.declares_of_isWord {k : TokenKind} (h : k.isWord = true) :
    k.declares = false := by
  cases k <;> first | rfl | cases h

/-- In the place of an identifier the name of a type may stand. -/
def Admits (a b : Option TokenKind) : Prop :=
  b = a ∨ a = some .identifier ∧ ∃ k : Keyword, k.IsType ∧ b = some (.keyword k)

namespace Admits

variable {a b : Option TokenKind}

theorem refl (a : Option TokenKind) : Admits a a := .inl rfl

/-- What is the same for an identifier and for the name of a type is the same for both tokens. -/
theorem congr {β : Type} (h : Admits a b) {g : Option TokenKind → β}
    (hg : ∀ k : Keyword, k.IsType → g (some (.keyword k)) = g (some .identifier)) :
    g b = g a := by
  obtain rfl | ⟨rfl, k, hk, rfl⟩ := h
  · rfl
  · exact hg k hk

end Admits

/-- Tokens of which one admits the other. -/
def Token.Admits (t u : Token) : Prop := PirFrontend.Admits (some t.kind) (some u.kind)

instance : Total Token.Admits := ⟨fun t => ⟨t, .refl _⟩⟩

instance : Total fun a b : Option Token => Admits (a.map (·.kind)) (b.map (·.kind)) :=
  ⟨fun a => ⟨a, .refl _⟩⟩

namespace Respelling

variable (ρ : Respelling)

/-- Tokens that are used alike, the second one under another name. -/
structure Words (t u : Token) : Prop where
  admits : t.Admits u
  lexeme : t.kind.isWord = true → u.lexeme = ρ.name t.lexeme
  spared : t.kind.isWord = true → Spared ρ.hidden t.lexeme u.lexeme

/-- Two texts of which the second one uses other names. `declared` says whether the first token
stands directly behind a directive that declares; a type there is the same type. -/
inductive Texts : Bool → List Token → List Token → Prop
  | nil (declared : Bool) : Texts declared [] []
  | word {declared : Bool} {t u : Token} {ts us : List Token} : ρ.Words t u →
      Texts t.kind.declares ts us → Texts declared (t :: ts) (u :: us)
  | type {k : Keyword} {t u : Token} {ts us : List Token} : t.kind = .keyword k →
      u.kind = .keyword k → Texts false ts us → Texts true (t :: ts) (u :: us)

/-- Nothing is known of the tokens ahead. -/
def Anything : List TokenKind → Prop := fun _ => True

/-- Two readings of such texts, with builders that were told the same under other names. What is
known of the kinds of the tokens ahead is `K`. -/
structure At (declared : Bool) (K : List TokenKind → Prop) (s t : Session) : Prop where
  builders : ρ.Builders s.builder t.builder
  tokens : ∃ ts us, s.steps = ts.map .ok ∧ t.steps = us.map .ok ∧ ρ.Texts declared ts us ∧
    K (ts.map (·.kind))

/-- The second rule reads and builds under other names what the first one does. -/
abbrev Reads {ε α : Type} (K : List TokenKind → Prop) (x y : Act ε α) (r : α → α) : Prop :=
  Carries (ρ.At false K) x y (Maps r) fun _ => ρ.At false Anything

variable {ρ} {ε α β : Type} {declared : Bool} {K J : List TokenKind → Prop} {s t s' : Session}

namespace At

theorem mono (h : ρ.At declared K s t) (hK : ∀ L, K L → J L) : ρ.At declared J s t := by
  obtain ⟨ts, us, hs, ht, htexts, hahead⟩ := h.tokens
  exact ⟨h.builders, ts, us, hs, ht, htexts, hK _ hahead⟩

theorem weaken (h : ρ.At declared K s t) : ρ.At declared Anything s t := h.mono fun _ _ => trivial

theorem elim (h : ρ.At declared K s t) (hK : ∀ L, ¬K L) : False := by
  obtain ⟨ts, us, -, -, -, hahead⟩ := h.tokens
  exact hK _ hahead

end At

/-- Tokens at the same index are of kinds of which one admits the other. -/
theorem Texts.getElem? {ts us : List Token} (h : ρ.Texts declared ts us) (n : Nat) :
    Admits (ts[n]?.map (·.kind)) (us[n]?.map (·.kind)) := by
  induction h generalizing n with
  | nil => exact .refl _
  | word hw _ ih =>
    cases n with
    | zero => exact hw.admits
    | succ n => exact ih n
  | type ht hu _ ih =>
    cases n with
    | zero => exact .inl (by simp [ht, hu])
    | succ n => exact ih n

/-! One token -/

theorem lookAt_map_ok (ts : List Token) (n : Nat) :
    lookAt n (ts.map .ok) = (.ok ts[n]?, ts.map .ok) := by
  obtain hn | hn := Nat.lt_or_ge n ts.length
  · simpa using lookAt_of_lt hn []
  · rw [lookAt_of_le hn, List.getElem?_eq_none hn]

/-- A look that succeeds leaves everything where it was. -/
theorem snd_lookAt {n : Nat} {L : List Step} {a : Option Token} (h : (lookAt n L).1 = .ok a) :
    (lookAt n L).2 = L := by
  fun_induction lookAt n L with
  | case1 | case3 => rfl
  | case2 => cases h
  | case4 _ _ _ ih => rw [ih h]

theorem run_peek_ok {n : Nat} {a : Option Token} (hn : n ≤ maxLookahead)
    (h : (liftM (TokenStream.peek n) : Parser (Option Token)).run s = (.ok a, s')) :
    s'.steps = s.steps ∧ s'.builder = s.builder := by
  obtain ⟨s'', hrun, hsteps, hbuilder, -⟩ := s.run_peek hn
  rw [hrun] at h
  obtain ⟨hlook, rfl⟩ := Prod.mk.inj h
  refine ⟨?_, hbuilder⟩
  cases hl : (lookAt n s.steps).1 with
  | error f =>
    rw [hl] at hlook
    cases hlook
  | ok b => rw [hsteps, snd_lookAt hl]

theorem run_peek_tokens {n : Nat} (hn : n ≤ maxLookahead) {ts : List Token}
    (hs : s.steps = ts.map .ok) :
    ∃ s', (liftM (TokenStream.peek n) : Parser (Option Token)).run s = (.ok ts[n]?, s') ∧
      s'.steps = ts.map .ok ∧ s'.builder = s.builder := by
  obtain ⟨s', hrun, hsteps, hbuilder, -⟩ := s.run_peek hn
  rw [hs, lookAt_map_ok] at hrun hsteps
  exact ⟨s', hrun, hsteps, hbuilder⟩

theorem clean_of_eq (hsteps : s'.steps = s.steps) (hbuilder : s'.builder = s.builder)
    (h : Clean s') : Clean s := by
  obtain ⟨hdiagnostics, hok⟩ := h
  exact ⟨hbuilder ▸ hdiagnostics, hsteps ▸ hok⟩

/-- Both look at the same index. -/
theorem peek {n : Nat} (hn : n ≤ maxLookahead) :
    Carries (ρ.At declared K) (liftM (TokenStream.peek n) : Parser (Option Token))
      (liftM (TokenStream.peek n)) (fun a b => Admits (a.map (·.kind)) (b.map (·.kind)))
      fun a => ρ.At declared fun L => K L ∧ L[n]? = a.map (·.kind) where
  clean hrun hclean := by
    obtain ⟨hsteps, hbuilder⟩ := run_peek_ok hn hrun
    exact clean_of_eq hsteps hbuilder hclean
  carry {s t s' a} h hrun _ := by
    obtain ⟨ts, us, hs, ht, htexts, hK⟩ := h.tokens
    obtain ⟨s₁, hs₁, hsteps, hbuilder⟩ := run_peek_tokens hn hs
    obtain ⟨t₁, ht₁, hsteps', hbuilder'⟩ := run_peek_tokens hn ht
    rw [hs₁] at hrun
    cases hrun
    refine ⟨_, t₁, ht₁, htexts.getElem? n, hbuilder ▸ hbuilder' ▸ h.builders, ts, us, hsteps,
      hsteps', htexts, hK, ?_⟩
    rw [List.getElem?_map]

/-- Both look at the kind of a token ahead. -/
theorem peekKind_bindRel {n : Nat} (hn : n ≤ maxLookahead) {f g : Option TokenKind → Parser α}
    {R : α → α → Prop} {Q : α → Session → Session → Prop}
    (h : ∀ k l, Admits k l → Carries (ρ.At declared fun L => K L ∧ L[n]? = k) (f k) (g l) R Q) :
    Carries (ρ.At declared K) (Parser.peekKind n >>= f) (Parser.peekKind n >>= g) R Q := by
  have hassoc (f : Option TokenKind → Parser α) : Parser.peekKind n >>= f =
      (liftM (TokenStream.peek n) : Parser (Option Token)) >>= fun a => f (a.map (·.kind)) := by
    unfold Parser.peekKind
    rw [bind_assoc]
    simp
  rw [hassoc, hassoc]
  exact (peek hn).bindRel fun a b hab => h _ _ hab

/-- What depends on the kind of a token ahead only, and not on whether it is an identifier or the
name of a type, is done alike. -/
theorem peekKind_bind {n : Nat} (hn : n ≤ maxLookahead) {f g : Option TokenKind → Parser α}
    {R : α → α → Prop} {Q : α → Session → Session → Prop}
    (hg : ∀ k : Keyword, k.IsType → g (some (.keyword k)) = g (some .identifier))
    (h : ∀ k, Carries (ρ.At declared fun L => K L ∧ L[n]? = k) (f k) (g k) R Q) :
    Carries (ρ.At declared K) (Parser.peekKind n >>= f) (Parser.peekKind n >>= g) R Q :=
  peekKind_bindRel hn fun k l hkl => by
    rw [hkl.congr hg]
    exact h k

/-- What was known before a look is all that is needed afterwards. -/
theorem peekKind_still {n : Nat} (hn : n ≤ maxLookahead) {f g : Option TokenKind → Parser α}
    {R : α → α → Prop} {Q : α → Session → Session → Prop}
    (hg : ∀ k : Keyword, k.IsType → g (some (.keyword k)) = g (some .identifier))
    (h : ∀ k, Carries (ρ.At declared K) (f k) (g k) R Q) :
    Carries (ρ.At declared K) (Parser.peekKind n >>= f) (Parser.peekKind n >>= g) R Q :=
  peekKind_bind hn hg fun k => (h k).before fun _ _ h => h.mono fun _ hK => hK.1

/-- A question about the kind of a token ahead. -/
theorem peekKind_map {n : Nat} (hn : n ≤ maxLookahead) {p : Option TokenKind → Bool}
    (hp : ∀ k : Keyword, k.IsType → p (some (.keyword k)) = p (some .identifier)) :
    Carries (ρ.At declared K) (do return p (← Parser.peekKind n) : Parser Bool)
      (do return p (← Parser.peekKind n)) (Maps id)
      fun b => ρ.At declared fun L => K L ∧ p L[n]? = b := by
  refine peekKind_bind hn (fun k hk => by rw [hp k hk]) fun k => .pure rfl ?_
  exact fun _ _ h => h.mono fun L ⟨hK, hk⟩ => ⟨hK, congrArg p hk⟩

theorem advance_ok {a : Token} (h : Parser.advance.run s = (.ok a, s')) :
    s.steps = .ok a :: s'.steps ∧ s'.builder = s.builder := by
  obtain ⟨b, s₁, hnext, hrest⟩ := exists_of_run_bind h
  obtain ⟨s₂, hrun, hsteps, hbuilder, -⟩ := s.run_next
  rw [hrun] at hnext
  obtain ⟨htake, rfl⟩ := Prod.mk.inj hnext
  cases hs : s.steps with
  | nil =>
    rw [hs] at htake
    cases htake
    cases hrest
  | cons step L =>
    rw [hs] at htake hsteps
    cases step with
    | error f => cases htake
    | ok u =>
      cases htake
      cases hrest
      exact ⟨by rw [hsteps]; rfl, hbuilder⟩

theorem run_advance_tokens {t : Token} {ts : List Token} (hs : s.steps = (t :: ts).map .ok) :
    ∃ s', Parser.advance.run s = (.ok t, s') ∧ s'.steps = ts.map .ok ∧
      s'.builder = s.builder := by
  obtain ⟨s', hrun, hsteps, hbuilder, -⟩ := s.run_next
  rw [hs] at hrun hsteps
  exact ⟨s', run_bind_ok hrun, hsteps, hbuilder⟩

theorem clean_of_advance {a : Token} (h : Parser.advance.run s = (.ok a, s')) (hclean : Clean s') :
    Clean s := by
  obtain ⟨hsteps, hbuilder⟩ := advance_ok h
  obtain ⟨hdiagnostics, ts, hts⟩ := hclean
  exact ⟨hbuilder ▸ hdiagnostics, a :: ts, by rw [hsteps, hts]; rfl⟩

/-- Taking a token ahead, whatever it is. -/
theorem At.advance {a : Token} (h : ρ.At declared K s t)
    (hrun : Parser.advance.run s = (.ok a, s')) :
    ∃ b t', Parser.advance.run t = (.ok b, t') ∧ a.Admits b ∧
      (declared = false → ρ.Words a b) ∧
      ρ.At a.kind.declares (fun L => K (a.kind :: L)) s' t' := by
  obtain ⟨hsteps, hbuilder⟩ := advance_ok hrun
  obtain ⟨ts, us, hs, ht, htexts, hK⟩ := h.tokens
  cases htexts with
  | nil =>
    rw [hs] at hsteps
    cases hsteps
  | @word _ t₀ u ts us hw htexts =>
    rw [hs, List.map_cons, List.cons.injEq, Except.ok.injEq] at hsteps
    obtain ⟨rfl, hsteps⟩ := hsteps
    obtain ⟨t', ht', hsteps', hbuilder'⟩ := run_advance_tokens ht
    exact ⟨u, t', ht', hw.admits, fun _ => hw, hbuilder ▸ hbuilder' ▸ h.builders, ts, us,
      hsteps.symm, hsteps', htexts, hK⟩
  | @type k t₀ u ts us hkt hku htexts =>
    rw [hs, List.map_cons, List.cons.injEq, Except.ok.injEq] at hsteps
    obtain ⟨rfl, hsteps⟩ := hsteps
    obtain ⟨t', ht', hsteps', hbuilder'⟩ := run_advance_tokens ht
    refine ⟨u, t', ht', .inl (by rw [hkt, hku]), nofun, hbuilder ▸ hbuilder' ▸ h.builders, ts, us,
      hsteps.symm, hsteps', ?_, hK⟩
    rw [hkt]
    exact htexts

/-- What is known of a token and of what is behind it. -/
theorem At.of_known {d : Bool} {t₀ : Token}
    (h : ρ.At t₀.kind.declares (fun L => K (t₀.kind :: L)) s t)
    (hK : ∀ k L, K (k :: L) → k.declares = d ∧ J L) : ρ.At d J s t := by
  obtain ⟨ts, us, hs, ht, htexts, hahead⟩ := h.tokens
  obtain ⟨rfl, hJ⟩ := hK _ _ hahead
  exact ⟨h.builders, ts, us, hs, ht, htexts, hJ⟩

/-- Taking any token. -/
theorem advance :
    Carries (ρ.At declared K) Parser.advance Parser.advance Token.Admits
      fun a => ρ.At a.kind.declares Anything where
  clean := clean_of_advance
  carry h hrun _ := by
    obtain ⟨b, t', ht, hadmits, -, hat⟩ := h.advance hrun
    exact ⟨b, t', ht, hadmits, hat.weaken⟩

/-- Taking a token of which something is known. -/
theorem advance_known {d : Bool} (hK : ∀ k L, K (k :: L) → k.declares = d ∧ J L) :
    Carries (ρ.At declared K) Parser.advance Parser.advance Token.Admits
      fun _ => ρ.At d J where
  clean := clean_of_advance
  carry {s t s' a} h hrun _ := by
    obtain ⟨b, t', ht, hadmits, -, hat⟩ := h.advance hrun
    exact ⟨b, t', ht, hadmits, hat.of_known hK⟩

/-- Taking a token that is known to be a word. -/
theorem At.advanceText {a : String} (h : ρ.At false K s t)
    (hK : ∀ k L, K (k :: L) → k.isWord = true ∧ J L)
    (hrun : Parser.advanceText.run s = (.ok a, s')) :
    ∃ t', Parser.advanceText.run t = (.ok (ρ.name a), t') ∧ Spared ρ.hidden a (ρ.name a) ∧
      ρ.At false J s' t' := by
  obtain ⟨u, s₁, hadvance, hpure⟩ := exists_of_run_bind hrun
  cases hpure
  obtain ⟨v, t', ht, -, hwords, hat⟩ := h.advance hadvance
  obtain ⟨ts, us, hs, ht', htexts, hahead⟩ := hat.tokens
  obtain ⟨hword, hJ⟩ := hK _ _ hahead
  have hlexeme := (hwords rfl).lexeme hword
  rw [TokenKind.declares_of_isWord hword] at htexts
  refine ⟨t', ?_, hlexeme ▸ (hwords rfl).spared hword, hat.builders, ts, us, hs, ht', htexts, hJ⟩
  rw [← hlexeme]
  exact run_bind_ok ht

theorem clean_of_advanceText {a : String} (h : Parser.advanceText.run s = (.ok a, s'))
    (hclean : Clean s') : Clean s := by
  obtain ⟨u, s₁, hadvance, hpure⟩ := exists_of_run_bind h
  cases hpure
  exact clean_of_advance hadvance hclean

/-- The text of a word is another name, and the same one unless it is hidden. -/
theorem advanceText_spared (hK : ∀ k L, K (k :: L) → k.isWord = true ∧ J L) :
    Carries (ρ.At false K) Parser.advanceText Parser.advanceText (Maps ρ.name)
      fun a s t => ρ.At false J s t ∧ Spared ρ.hidden a (ρ.name a) where
  clean := clean_of_advanceText
  carry h hrun _ := by
    obtain ⟨t', ht, hspared, hat⟩ := h.advanceText hK hrun
    exact ⟨_, t', ht, rfl, hat, hspared⟩

theorem advanceText (hK : ∀ k L, K (k :: L) → k.isWord = true ∧ J L) :
    Carries (ρ.At false K) Parser.advanceText Parser.advanceText (Maps ρ.name)
      fun _ => ρ.At false J :=
  (advanceText_spared hK).after fun _ _ _ h => h.1

/-- The text of a word that is no name, for all that is known. -/
theorem advanceWord (hK : ∀ k L, K (k :: L) → k.isWord = true ∧ J L) :
    Carries (ρ.At false K) Parser.advanceText Parser.advanceText (Spared ρ.hidden)
      fun _ => ρ.At false J where
  clean := clean_of_advanceText
  carry h hrun _ := by
    obtain ⟨t', ht, hspared, hat⟩ := h.advanceText hK hrun
    exact ⟨_, t', ht, hspared, hat⟩

/-- A token that was looked at is the one that is taken. -/
theorem known_ahead {k₀ : TokenKind} (h₀ : k₀.declares = false) (k : TokenKind)
    (L : List TokenKind) (h : K (k :: L) ∧ (k :: L)[0]? = some k₀) :
    k.declares = false ∧ Anything L := by
  obtain rfl : k = k₀ := Option.some.inj h.2
  exact ⟨h₀, trivial⟩

theorem word_ahead {k₀ : TokenKind} (h₀ : k₀.isWord = true) (k : TokenKind)
    (L : List TokenKind) (h : K (k :: L) ∧ (k :: L)[0]? = some k₀) :
    k.isWord = true ∧ Anything L := by
  obtain rfl : k = k₀ := Option.some.inj h.2
  exact ⟨h₀, trivial⟩

/-- Taking any token, or seeing that there is none. -/
theorem next_ok {a : Option Token}
    (h : (liftM TokenStream.next : Parser (Option Token)).run s = (.ok a, s')) :
    (∃ t, a = some t ∧ Parser.advance.run s = (.ok t, s')) ∨
      a = none ∧ s.steps = [] ∧ s'.steps = [] ∧ s'.builder = s.builder := by
  cases a with
  | some t => exact .inl ⟨t, rfl, run_bind_ok h⟩
  | none =>
    obtain ⟨s'', hrun, hsteps, hbuilder, -⟩ := s.run_next
    rw [hrun] at h
    obtain ⟨htake, rfl⟩ := Prod.mk.inj h
    cases hs : s.steps with
    | nil => exact .inr ⟨rfl, rfl, by rw [hsteps, hs]; rfl, hbuilder⟩
    | cons step L =>
      rw [hs] at htake
      cases step <;> cases htake

/-- Taking a token that is there. -/
theorem next_known (hnil : ¬K []) (hK : ∀ k L, K (k :: L) → k.declares = false ∧ J L) :
    Carries (ρ.At false K) (liftM TokenStream.next : Parser (Option Token))
      (liftM TokenStream.next) (fun a b => b.isSome = a.isSome)
      fun a s t => a.isSome = true ∧ ρ.At false J s t where
  clean hrun hclean := by
    obtain ⟨t, -, hadvance⟩ | ⟨-, hs, hs', hbuilder⟩ := next_ok hrun
    · exact clean_of_advance hadvance hclean
    · exact clean_of_eq (hs'.trans hs.symm) hbuilder hclean
  carry {s t s' a} h hrun _ := by
    obtain ⟨ts, us, hs, ht, htexts, hahead⟩ := h.tokens
    obtain ⟨a, rfl, hadvance⟩ | ⟨-, hsnil, -⟩ := next_ok hrun
    · obtain ⟨b, t', ht', -, -, hat⟩ := h.advance hadvance
      obtain ⟨c, t₁, hnext, hrest⟩ := exists_of_run_bind ht'
      cases c with
      | none => cases hrest
      | some c =>
        cases hrest
        exact ⟨some b, t', hnext, rfl, rfl, hat.of_known hK⟩
    · rw [hs, List.map_eq_nil_iff] at hsnil
      rw [hsnil] at hahead
      exact absurd hahead hnil

instance : Total fun a b : Option Token => b.isSome = a.isSome := ⟨fun a => ⟨a, rfl⟩⟩

/-- Reading in steps is reading the one step and then the other. -/
theorem lifted_bind {x y : Reading α} {f g : α → Reading β} {P : Session → Session → Prop}
    {R : β → β → Prop} {Q : β → Session → Session → Prop}
    (h : Carries P ((liftM x : Parser α) >>= fun a => (liftM (f a) : Parser β))
      ((liftM y : Parser α) >>= fun a => (liftM (g a) : Parser β)) R Q) :
    Carries P (liftM (x >>= f) : Parser β) (liftM (y >>= g)) R Q := by
  have hbind (x : Reading α) (f : α → Reading β) : (liftM (x >>= f) : Parser β) =
      (liftM x : Parser α) >>= fun a => (liftM (f a) : Parser β) :=
    funext (Pairing.run_lift_reading_bind x f)
  rw [hbind, hbind]
  exact h

/-- Taking a token if it passes a test. -/
theorem consumeIf (test : TokenKind → Bool)
    (htest : ∀ k : Keyword, k.IsType → test (.keyword k) = test .identifier)
    (hdeclares : ∀ k, test k = true → k.declares = false)
    (hK : ∀ k L, K (k :: L) → test k = true → J L) :
    Carries (ρ.At false K)
      (liftM (TokenStream.consumeIf fun t => test t.kind) : Parser (Option Token))
      (liftM (TokenStream.consumeIf fun t => test t.kind)) (fun a b => b.isSome = a.isSome)
      fun a => if a.isSome then ρ.At false J else ρ.At false K := by
  unfold TokenStream.consumeIf
  refine lifted_bind ((peek (Nat.zero_le _)).bindRel fun a b hab => ?_)
  cases a with
  | none =>
    cases b with
    | none => exact .pure rfl fun _ _ h => h.mono fun _ hK => hK.1
    | some u => obtain h | ⟨h, -⟩ := hab <;> cases h
  | some t =>
    cases b with
    | none =>
      obtain h | ⟨-, k, -, h⟩ := hab <;> cases h
    | some u =>
      -- The test takes the name of a type like a name, so both texts pass it or neither does.
      have heq : test u.kind = test t.kind := by
        simpa using hab.congr (g := fun k => k.any test) fun k hk => by simpa using htest k hk
      dsimp only
      by_cases ht : test t.kind = true
      · rw [if_pos ht, if_pos (heq.trans ht)]
        refine (next_known (J := J) ?_ ?_).after fun a s t h => ?_
        · simp
        · rintro k L ⟨hK₀, hk⟩
          cases hk
          exact ⟨hdeclares _ ht, hK _ _ hK₀ ht⟩
        · rw [if_pos h.1]
          exact h.2
      · rw [if_neg ht, if_neg (heq ▸ ht)]
        exact .pure rfl fun _ _ h => h.mono fun _ hK => hK.1

/-- What fails at the next token does so whatever it is compared with. -/
theorem unexpected (expected : List String) {y : Parser α} {P : Session → Session → Prop}
    {R : α → α → Prop} {Q : α → Session → Session → Prop} :
    Carries P (Parser.unexpected expected) y R Q := by
  refine .never fun s a s' h => ?_
  obtain ⟨t, s₁, -, hthrow⟩ := exists_of_run_bind h
  cases t <;> cases hthrow

/-! Building, mending and loops -/

theorem run_build_ok [OfFatal ε] {x : Build α} {a : α}
    (h : (liftM x : Act ε α).run s = (.ok a, s')) :
    x.run s.builder = (.ok a, s'.builder) ∧ s'.tokens = s.tokens := by
  change Act.build x s = _ at h
  unfold Act.build at h
  cases hx : x.run s.builder with
  | mk r b =>
    rw [hx] at h
    obtain f | a := r
    · cases h
    · cases h
      exact ⟨rfl, rfl⟩

theorem clean_of_build [OfFatal ε] {x : Build α}
    (hx : ∀ {b b' a}, x.run b = (.ok a, b') → Clean b' → Clean b) {a : α}
    (h : (liftM x : Act ε α).run s = (.ok a, s')) (hclean : Clean s') : Clean s := by
  obtain ⟨hrun, htokens⟩ := run_build_ok h
  refine ⟨hx hrun hclean.1, ?_⟩
  unfold Session.steps
  rw [← htokens]
  exact hclean.2

/-- A rule may build what two builders build alike. -/
theorem build [OfFatal ε] {x y : Build α} {R : α → α → Prop}
    (h : Carries ρ.Builders x y R fun _ => ρ.Builders) :
    Carries (ρ.At declared K) (liftM x : Act ε α) (liftM y) R fun _ => ρ.At declared K where
  clean := clean_of_build h.clean
  carry {s t s' a} hat hrun hclean := by
    obtain ⟨hx, htokens⟩ := run_build_ok hrun
    obtain ⟨a', c, hy, hR, hbuilders⟩ := h.carry hat.builders hx hclean.1
    refine ⟨a', { t with builder := c }, ?_, hR, hbuilders, ?_⟩
    · show Act.build y t = _
      unfold Act.build
      rw [hy]
    · unfold Session.steps
      rw [htokens]
      exact hat.tokens

/-- A rule may change the builder. -/
theorem change {f g : Builder → Builder} (hf : ∀ b, (f b).diagnostics = b.diagnostics)
    (h : ∀ b c, ρ.Builders b c → ρ.Builders (f b) (g c)) :
    Carries (ρ.At declared K) (Act.change f : Act ε Unit) (Act.change g) (Maps id)
      fun _ => ρ.At declared K where
  clean {s s' a} hrun hclean := by
    cases hrun
    exact ⟨(hf s.builder).symm.trans hclean.1, hclean.2⟩
  carry hat hrun _ := by
    cases hrun
    exact ⟨_, _, rfl, rfl, h _ _ hat.builders, hat.tokens⟩

/-- A rule that is mended if it is broken. What was mended is not clean. -/
theorem attempt {x y : Parser α} {otherwise otherwise' : α} {P : Session → Session → Prop}
    {R : α → α → Prop} {Q : α → Session → Session → Prop} (h : Carries P x y R Q) :
    Carries P (Mended.attempt x otherwise) (Mended.attempt y otherwise') R Q := by
  have hrule {s s' : Session} {a : α} (hrun : (Mended.attempt x otherwise).run s = (.ok a, s'))
      (hclean : Clean s') : x.run s = (.ok a, s') := by
    rw [Mended.run_attempt] at hrun
    cases hx : x.run s with
    | mk r s₁ =>
      rw [hx] at hrun
      obtain (e | f) | a := r
      · dsimp only at hrun
        cases hmend : (Build.mend e).run s₁.builder with
        | mk r b =>
          rw [hmend] at hrun
          obtain f | _ := r
          · cases hrun
          · cases hrun
            rw [Build.run_mend] at hmend
            exact absurd (show Clean b from hclean.1) (not_clean_of_report hmend)
      · cases hrun
      · cases hrun
        rfl
  constructor
  · exact fun hrun hclean => h.clean (hrule hrun hclean) hclean
  · intro s t s' a hP hrun hclean
    obtain ⟨b, t', hy, hq⟩ := h.carry hP (hrule hrun hclean) hclean
    refine ⟨b, t', ?_, hq⟩
    rw [Mended.run_attempt, hy]

/-- A rule may mend. -/
theorem mended {x y : Mended α} {P : Session → Session → Prop} {R : α → α → Prop}
    {Q : α → Session → Session → Prop} (h : Carries P x y R Q) :
    Carries P (liftM x : Parser α) (liftM y) R Q where
  clean {s s' a} hrun hclean := by
    rw [Pairing.run_lift_mended] at hrun
    cases hx : x.run s with
    | mk r s₁ =>
      rw [hx] at hrun
      obtain f | a := r
      · cases hrun
      · cases hrun
        exact h.clean hx hclean
  carry {s t s' a} hP hrun hclean := by
    rw [Pairing.run_lift_mended] at hrun
    cases hx : x.run s with
    | mk r s₁ =>
      rw [hx] at hrun
      obtain f | a := r
      · cases hrun
      · cases hrun
        obtain ⟨b, t', hy, hq⟩ := h.carry hP hx hclean
        refine ⟨b, t', ?_, hq⟩
        rw [Pairing.run_lift_mended, hy]

end Respelling
end PirFrontend
