import PirFrontend.Proofs.Runs

/-!
Two runs of the smallest rules: looking ahead, taking tokens, and ending a line. Within a line
both see tokens of the same kinds.
-/
namespace PirFrontend

open PirFrontend.Parser (Place Block)

/-! What is ahead -/

theorem Ahead.append {ks : List TokenKind} {t : Token} {L : List Step} (h : Ahead ks L)
    (ht : (lookAt ks.length L).1 = .ok (some t)) : Ahead (ks ++ [t.kind]) L := by
  induction ks generalizing L with
  | nil =>
    cases L with
    | nil => simp [lookAt] at ht
    | cons step L =>
      cases step with
      | error f => simp [lookAt] at ht
      | ok u =>
        simp only [List.length_nil, lookAt, Except.ok.injEq, Option.some.injEq] at ht
        exact ⟨ht ▸ rfl, trivial⟩
  | cons k ks ih =>
    cases L with
    | nil => exact h.elim
    | cons step L =>
      cases step with
      | error f => exact h.elim
      | ok u => exact ⟨h.1, ih h.2 ht⟩

theorem Ahead.take {ks : List TokenKind} {L : List Step} (n : Nat) (h : Ahead ks L) :
    Ahead (ks.take n) L := by
  induction ks generalizing L n with
  | nil => simp [Ahead]
  | cons k ks ih =>
    cases n with
    | zero => exact trivial
    | succ n =>
      match L, h with
      | .ok _ :: _, h => exact ⟨h.1, ih n h.2⟩

theorem lookAt_of_ahead {ks : List TokenKind} {k : TokenKind} {L : List Step} {n : Nat}
    (h : Ahead ks L) (hk : ks[n]? = some k) :
    ∃ t, t.kind = k ∧ lookAt n L = (.ok (some t), L) := by
  induction ks generalizing L n with
  | nil => simp at hk
  | cons k' ks ih =>
    cases L with
    | nil => exact h.elim
    | cons step L =>
    cases step with
    | error f => exact h.elim
    | ok u =>
    cases n with
    | zero =>
      simp only [List.getElem?_cons_zero, Option.some.injEq] at hk
      exact ⟨u, h.1.trans hk, rfl⟩
    | succ n =>
      obtain ⟨t, ht, hl⟩ := ih h.2 (by simpa using hk)
      exact ⟨t, ht, by simp [lookAt, hl]⟩

namespace InLine

variable {tok : Token → Token → Prop} {err : ParseError → ParseError → Prop}
  {start : List Step → List Step → Prop} {L M : List Step}

/-- Behind the end of a line a line begins. -/
theorem afterLine (h : InLine tok err start L M) (hlike : ∀ {t u}, tok t u → t.kind = u.kind) :
    start (PirFrontend.afterLine L) (PirFrontend.afterLine M) := by
  induction h with
  | nil h => exact h
  | newline ht hn h => simpa [PirFrontend.afterLine, hn, ← hlike ht] using h
  | token ht hn _ ih => simpa [PirFrontend.afterLine, hn, ← hlike ht] using ih
  | fault _ _ ih => exact ih

/-- How two looks at the same index within a line end. -/
inductive Looks (tok : Token → Token → Prop) (err : ParseError → ParseError → Prop)
    (start : List Step → List Step → Prop) (L M : List Step) :
    Except LexFault (Option Token) × List Step → Except LexFault (Option Token) × List Step → Prop
  | none : Looks tok err start L M (.ok none, L) (.ok none, M)
  | token {t u : Token} : tok t u →
      Looks tok err start L M (.ok (some t), L) (.ok (some u), M)
  | fault {f g : LexFault} {L' M' : List Step} : err (.ofFault f) (.ofFault g) →
      InLine tok err start L' M' → Looks tok err start L M (.error f, L') (.error g, M')

theorem looks_zero (h : InLine tok err start L M) :
    Looks tok err start L M (lookAt 0 L) (lookAt 0 M) := by
  cases h with
  | nil _ => exact .none
  | newline ht _ _ => exact .token ht
  | token ht _ _ => exact .token ht
  | fault he h => exact .fault he h

theorem Looks.cons {t u : Token} {n : Nat} (htok : tok t u) (hn : t.kind.isNewline = false)
    (hl : Looks tok err start L M (lookAt n L) (lookAt n M)) :
    Looks tok err start (.ok t :: L) (.ok u :: M) (lookAt (n + 1) (.ok t :: L))
      (lookAt (n + 1) (.ok u :: M)) := by
  simp only [lookAt]
  revert hl
  generalize lookAt n L = r
  generalize lookAt n M = r'
  intro hl
  cases hl with
  | none => exact .none
  | token hu => exact .token hu
  | fault he h => exact .fault he (.token htok hn h)

/-- Behind tokens that do not end the line one sees the same again. -/
theorem looks (h : InLine tok err start L M) {ks : List TokenKind} (ha : Ahead ks L)
    (hks : ∀ k ∈ ks, k.isNewline = false) :
    Looks tok err start L M (lookAt ks.length L) (lookAt ks.length M) := by
  induction ks generalizing L M with
  | nil => exact h.looks_zero
  | cons k ks ih =>
    cases h with
    | nil _ => exact ha.elim
    | fault _ _ => exact ha.elim
    | newline _ hn _ =>
      have hk := hks k List.mem_cons_self
      rw [← ha.1, hn] at hk
      contradiction
    | @token t u L M ht hn h =>
      exact (ih h ha.2 fun k hk => hks k (List.mem_cons_of_mem _ hk)).cons ht hn

/-- A token whose kind is known is seen again. -/
theorem looks_known (h : InLine tok err start L M) {ks : List TokenKind} {n : Nat}
    {k : TokenKind} (ha : Ahead ks L) (hk : ks[n]? = some k)
    (hks : ∀ k ∈ ks.take n, k.isNewline = false) :
    ∃ t u, tok t u ∧ t.kind = k ∧ lookAt n L = (.ok (some t), L) ∧
      lookAt n M = (.ok (some u), M) := by
  obtain ⟨t, ht, hl⟩ := lookAt_of_ahead ha hk
  have hlen : (ks.take n).length = n := by
    have := (List.getElem?_eq_some_iff.1 hk).1
    rw [List.length_take]
    omega
  have hlooks := h.looks (ha.take n) hks
  rw [hlen, hl] at hlooks
  generalize hr : lookAt n M = r at hlooks
  cases hlooks with
  | @token _ u htu => exact ⟨t, u, htu, ht, hl, rfl⟩

end InLine

/-! Looking and taking -/

namespace Session

/-- What a reading does to a session. -/
theorem run_read {α : Type} {x : Reading α} {s : Session} {r : Except LexFault α × List Step}
    (h : ∃ u, x.run s.tokens = (r.1.mapError .ofFault, u) ∧ u.steps = r.2 ∧ s.tokens.Follows u) :
    ∃ s', (liftM x : Parser α).run s = (r.1.mapError fun f => .broken (.ofFault f), s') ∧
      s'.steps = r.2 ∧ s'.builder = s.builder ∧ s.tokens.Follows s'.tokens := by
  obtain ⟨u, hr, hsteps, hF⟩ := h
  refine ⟨⟨u, s.builder⟩, ?_, hsteps, rfl, hF⟩
  show Parser.read x s = _
  unfold Parser.read
  rw [hr]
  cases r.1 <;> rfl

theorem run_peek {n : Nat} (hi : n ≤ maxLookahead) (s : Session) :
    ∃ s', (liftM (TokenStream.peek n) : Parser (Option Token)).run s =
        ((lookAt n s.steps).1.mapError fun f => .broken (.ofFault f), s') ∧
      s'.steps = (lookAt n s.steps).2 ∧ s'.builder = s.builder ∧ s.tokens.Follows s'.tokens :=
  run_read (TokenStream.peek_spec hi s.tokens)

theorem run_next (s : Session) :
    ∃ s', (liftM TokenStream.next : Parser (Option Token)).run s =
        ((takeStep s.steps).1.mapError fun f => .broken (.ofFault f), s') ∧
      s'.steps = (takeStep s.steps).2 ∧ s'.builder = s.builder ∧ s.tokens.Follows s'.tokens :=
  run_read (TokenStream.next_spec s.tokens)

end Session

namespace Pairing

variable {α : Type} {P : Pairing} {cr : Prop} {p : Place} {s t : Session} {ks : List TokenKind}
  {k : TokenKind}

theorem Mid.weaken (h : P.Mid p ks s t) : P.Mid p [] s t := ⟨h.rel, h.steps, trivial⟩

theorem Mid.take (h : P.Mid p ks s t) (n : Nat) : P.Mid p (ks.take n) s t :=
  ⟨h.rel, h.steps, h.ahead.take n⟩

theorem run_lift_build (x : Build α) (s : Session) :
    (liftM x : Parser α).run s = match x.run s.builder with
      | (.ok a, b) => (.ok a, { s with builder := b })
      | (.error f, b) => (.error (.fatal f), { s with builder := b }) := rfl

/-- Two looks see nothing, or tokens that are related. -/
inductive Sees (tok : Token → Token → Prop) : Option Token → Option Token → Prop
  | none : Sees tok none none
  | token {u v : Token} : tok u v → Sees tok (some u) (some v)

/-- Two runs have looked at an index, where they see this. -/
structure Looked (P : Pairing) (p : Place) (ks : List TokenKind) (n : Nat) (s t : Session)
    (a a' : Option Token) (s' t' : Session) : Prop where
  still : Still s t s' t'
  mid : P.Mid p ks s' t'
  sees : Sees P.tok a a'
  steps : s'.steps = s.steps
  steps' : t'.steps = t.steps
  left : lookAt n s.steps = (.ok a, s.steps)
  right : lookAt n t.steps = (.ok a', t.steps)

theorem peek_runs (h : P.Mid p ks s t) {n : Nat} (hi : n ≤ maxLookahead)
    (hl : InLine.Looks P.tok P.err P.start s.steps t.steps (lookAt n s.steps) (lookAt n t.steps)) :
    P.Runs cr p (liftM (TokenStream.peek n)) (liftM (TokenStream.peek n)) s t
      (P.Looked p ks n s t) := by
  obtain ⟨s', hs, hss, hsb, hsF⟩ := s.run_peek hi
  obtain ⟨t', ht, htt, htb, htF⟩ := t.run_peek hi
  have hrel : P.rel p s'.builder t'.builder := hsb ▸ htb ▸ h.rel
  unfold Runs
  rw [hs, ht]
  clear hs ht
  generalize hr : lookAt n s.steps = r at *
  generalize hr' : lookAt n t.steps = r' at *
  cases hl with
  | none =>
    exact .ok hsF htF ⟨⟨hsb, htb⟩, ⟨hrel, hss ▸ htt ▸ h.steps, hss ▸ h.ahead⟩, .none, hss, htt,
      hr, hr'⟩
  | token htok =>
    exact .ok hsF htF ⟨⟨hsb, htb⟩, ⟨hrel, hss ▸ htt ▸ h.steps, hss ▸ h.ahead⟩, .token htok, hss,
      htt, hr, hr'⟩
  | fault he hm => exact .broken hsF htF he ⟨hrel, hss ▸ htt ▸ hm, trivial⟩

/-- What looking at the next token answers. -/
inductive SeenNext (P : Pairing) (p : Place) (ks : List TokenKind) (s t : Session) :
    Option Token → Option Token → Prop
  | none : ks = [] → s.steps = [] → t.steps = [] → P.Mid p [] s t → P.SeenNext p ks s t none none
  | token {u v : Token} : P.tok u v → (∀ k, ks[0]? = some k → u.kind = k) →
      P.Mid p (u.kind :: ks.tail) s t → P.SeenNext p ks s t (some u) (some v)

theorem lookAt_zero_none {L M : List Step} (h : lookAt 0 L = (.ok none, M)) : L = [] := by
  cases L with
  | nil => rfl
  | cons step L => cases step <;> simp [lookAt] at h

/-- Looking at the next token, whether or not it is known already. -/
theorem peek_zero (h : P.Mid p ks s t) :
    P.Runs cr p (liftM (TokenStream.peek 0)) (liftM (TokenStream.peek 0)) s t
      fun a a' s' t' => Still s t s' t' ∧ P.SeenNext p ks s' t' a a' := by
  apply (peek_runs h (Nat.zero_le _) h.steps.looks_zero).imp
  rintro a a' s' t' - - ⟨hst, hm, hsees, hs, ht, hl, hl'⟩
  rw [← hs] at hl
  rw [← ht] at hl'
  refine ⟨hst, ?_⟩
  -- Either both texts are over, or the known kinds say what is next.
  cases hsees with
  | none =>
    have hs := lookAt_zero_none hl
    have hks : ks = [] := by
      have hahead := hm.ahead
      rw [hs] at hahead
      cases ks with
      | nil => rfl
      | cons k ks => exact hahead.elim
    exact .none hks hs (lookAt_zero_none hl') hm.weaken
  | @token u v htok =>
    cases ks with
    | nil =>
      have hahead := hm.ahead.append (by rw [List.length_nil, hl])
      exact .token htok (by simp) ⟨hm.rel, hm.steps, hahead⟩
    | cons k ks =>
      obtain ⟨w, hw, hlw⟩ := lookAt_of_ahead hm.ahead (n := 0) rfl
      obtain rfl : u = w := by simpa [hl] using hlw
      exact .token htok (by simpa using hw) (hw ▸ hm)

/-- Looking behind tokens that are known and do not end the line. -/
theorem peek_next (h : P.Mid p ks s t) (hks : ∀ k ∈ ks, k.isNewline = false)
    (hi : ks.length ≤ maxLookahead) :
    P.Runs cr p (liftM (TokenStream.peek ks.length)) (liftM (TokenStream.peek ks.length)) s t
      fun a a' s' t' => P.Looked p ks ks.length s t a a' s' t' ∧
        P.Mid p (ks ++ (a.map (·.kind)).toList) s' t' := by
  apply (peek_runs h hi (h.steps.looks h.ahead hks)).imp
  intro a a' s' t' _ _ hlooked
  have hl := hlooked.left
  rw [← hlooked.steps] at hl
  have hm := hlooked.mid
  refine ⟨hlooked, ?_⟩
  cases hlooked.sees with
  | none => simpa using hm
  | token htok => exact ⟨hm.rel, hm.steps, hm.ahead.append (by rw [hl])⟩

theorem peek_known (h : P.Mid p ks s t) {n : Nat} (hk : ks[n]? = some k)
    (hks : ∀ k ∈ ks.take n, k.isNewline = false) (hi : n ≤ maxLookahead) :
    P.Runs cr p (liftM (TokenStream.peek n)) (liftM (TokenStream.peek n)) s t
      fun a a' s' t' => Still s t s' t' ∧ P.Mid p ks s' t' ∧ Sees P.tok a a' ∧
        a.map (·.kind) = some k := by
  obtain ⟨u, v, htok, hu, hl, hl'⟩ := h.steps.looks_known h.ahead hk hks
  apply (peek_runs h hi (by rw [hl, hl']; exact .token htok)).imp
  rintro a a' s' t' - - ⟨hst, hm, hsees, hs, -, hl, -⟩
  rw [← hs] at hl
  obtain ⟨w, hw, hlw⟩ := lookAt_of_ahead hm.ahead hk
  obtain rfl : a = some w := by simpa [hl] using hlw
  exact ⟨hst, hm, hsees, congrArg some hw⟩

theorem Sees.kind [P.Readable] {a a' : Option Token} (h : Sees P.tok a a') :
    a.map (·.kind) = a'.map (·.kind) := by
  cases h with
  | none => rfl
  | token htok => exact congrArg some (Readable.like htok).kind

/-- What is known of the tokens ahead once the next one was looked at. -/
def known (ks : List TokenKind) (a : Option TokenKind) : List TokenKind := a.toList ++ ks.tail

theorem peekKind_next [P.Readable] (h : P.Mid p ks s t) (hks : ∀ k ∈ ks, k.isNewline = false)
    (hi : ks.length ≤ maxLookahead) :
    P.Reads cr p (Parser.peekKind ks.length) (Parser.peekKind ks.length) s t
      (fun a => ks ++ a.toList) fun a s' t' => Still s t s' t' ∧ (a = none →
        lookAt ks.length s'.steps = (.ok none, s'.steps) ∧
          lookAt ks.length t'.steps = (.ok none, t'.steps)) := by
  apply (peek_next h hks hi).bind
  rintro a a' s' t' - - ⟨⟨hst, -, hsees, hs, ht, hl, hl'⟩, hm⟩
  rw [← hs] at hl
  rw [← ht] at hl'
  refine Runs.pure ⟨hsees.kind, .of_eq hst.1, hm, hst, fun hnone => ?_⟩
  cases hsees with
  | none => exact ⟨hl, hl'⟩
  | token _ => cases hnone

theorem peekKind_known [P.Readable] (h : P.Mid p ks s t) {n : Nat} (hk : ks[n]? = some k)
    (hks : ∀ k ∈ ks.take n, k.isNewline = false) (hi : n ≤ maxLookahead) :
    P.Reads cr p (Parser.peekKind n) (Parser.peekKind n) s t (fun _ => ks)
      fun a s' t' => a = some k ∧ Still s t s' t' := by
  apply (peek_known h hk hks hi).bind
  rintro a a' s' t' - - ⟨hst, hm, hsees, hak⟩
  exact Runs.pure ⟨hsees.kind, .of_eq hst.1, hm, hak, hst⟩

theorem peekKind_zero [P.Readable] (h : P.Mid p ks s t) :
    P.Reads cr p (Parser.peekKind 0) (Parser.peekKind 0) s t (known ks)
      fun a s' t' => (∀ k, ks[0]? = some k → a = some k) ∧ Still s t s' t' ∧
        (a = none → s'.steps = [] ∧ t'.steps = []) := by
  apply (peek_zero h).bind
  rintro a a' s' t' - - ⟨hst, hseen⟩
  cases hseen with
  | none hks hs ht hm =>
    subst hks
    exact Runs.pure ⟨rfl, .of_eq hst.1, hm, by simp, hst, fun _ => ⟨hs, ht⟩⟩
  | token htok hk hm =>
    exact Runs.pure ⟨congrArg some (Readable.like htok).kind, .of_eq hst.1, hm,
      fun k h => congrArg some (hk k h), hst, nofun⟩

/-- Two runs have taken a token that does not end the line. -/
structure Taken (P : Pairing) (p : Place) (k : TokenKind) (ks : List TokenKind)
    (s t : Session) (u v : Token) (s' t' : Session) : Prop where
  tok : P.tok u v
  kind : u.kind = k
  still : Still s t s' t'
  shorter : Shorter s t s' t'
  mid : P.Mid p ks s' t'

theorem Taken.follows {u v : Token} {s' t' s'' t'' : Session} (hs : s.tokens.Follows s'.tokens)
    (ht : t.tokens.Follows t'.tokens) (hst : Still s t s' t')
    (h : P.Taken p k ks s' t' u v s'' t'') : P.Taken p k ks s t u v s'' t'' :=
  ⟨h.tok, h.kind, ⟨h.still.1.trans hst.1, h.still.2.trans hst.2⟩,
    ⟨Nat.lt_of_lt_of_le h.shorter.1 hs.steps_le, Nat.lt_of_lt_of_le h.shorter.2 ht.steps_le⟩, h.mid⟩

/-- Both runs take the token at the front. Behind a newline they are between two lines, and behind
any other token they are still in the middle of one. -/
theorem next_front (h : P.Mid p (k :: ks) s t) :
    P.Runs cr p (liftM TokenStream.next) (liftM TokenStream.next) s t fun a a' s' t' =>
      ∃ u v, a = some u ∧ a' = some v ∧ P.tok u v ∧ u.kind = k ∧ Still s t s' t' ∧
        Shorter s t s' t' ∧ P.rel p s'.builder t'.builder ∧
        (k.isNewline = false ∧ P.mid s'.steps t'.steps ∧ Ahead ks s'.steps ∨
          k.isNewline = true ∧ P.start s'.steps t'.steps) := by
  obtain ⟨s', hs, hss, hsb, hsF⟩ := s.run_next
  obtain ⟨t', ht, htt, htb, htF⟩ := t.run_next
  have hrel : P.rel p s'.builder t'.builder := hsb ▸ htb ▸ h.rel
  have hsteps := h.steps
  have hahead := h.ahead
  have hshorter {u v : Token} {L M : List Step} (hL : s.steps = .ok u :: L)
      (hM : t.steps = .ok v :: M) (hs' : s'.steps = L) (ht' : t'.steps = M) :
      Shorter s t s' t' := by
    constructor
    · rw [hs', hL]
      exact Nat.lt_succ_self _
    · rw [ht', hM]
      exact Nat.lt_succ_self _
  unfold Runs
  rw [hs, ht]
  clear hs ht
  generalize hL : s.steps = L at hss hsteps hahead ⊢
  generalize hM : t.steps = M at htt hsteps ⊢
  -- The known kind rules out the end of the text and a fault.
  cases hsteps with
  | nil _ => exact hahead.elim
  | fault _ _ => exact hahead.elim
  | @newline u v L M htok hn hm =>
    exact .ok hsF htF ⟨u, v, rfl, rfl, htok, hahead.1, ⟨hsb, htb⟩, hshorter hL hM hss htt, hrel,
      .inr ⟨hahead.1 ▸ hn, hss ▸ htt ▸ hm⟩⟩
  | @token u v L M htok hn hm =>
    exact .ok hsF htF ⟨u, v, rfl, rfl, htok, hahead.1, ⟨hsb, htb⟩, hshorter hL hM hss htt, hrel,
      .inl ⟨hahead.1 ▸ hn, hss ▸ htt ▸ hm, hss ▸ hahead.2⟩⟩

theorem next_known (h : P.Mid p (k :: ks) s t) (hk : k.isNewline = false) :
    P.Runs cr p (liftM TokenStream.next) (liftM TokenStream.next) s t fun a a' s' t' =>
      ∃ u v, a = some u ∧ a' = some v ∧ P.Taken p k ks s t u v s' t' := by
  apply (next_front h).imp
  rintro _ _ s' t' - - ⟨u, v, rfl, rfl, htok, hkind, hst, hshort, hrel, ⟨-, hm, ha⟩ | ⟨hn, -⟩⟩
  · exact ⟨u, v, rfl, rfl, htok, hkind, hst, hshort, hrel, hm, ha⟩
  · rw [hk] at hn
    cases hn

/-- Taking the newline leaves two runs between two lines. -/
theorem next_newline [P.Readable] (h : P.Mid p (k :: ks) s t) (hk : k.isNewline = true) :
    P.Runs cr p (liftM TokenStream.next) (liftM TokenStream.next) s t fun a a' s' t' =>
      a.isSome ∧ a'.isSome ∧ Still s t s' t' ∧ Shorter s t s' t' ∧ P.Between p s' t' := by
  apply (next_front h).imp
  rintro _ _ s' t' - - ⟨u, v, rfl, rfl, -, -, hst, hshort, hrel, ⟨hn, -⟩ | ⟨-, hstart⟩⟩
  · rw [hk] at hn
    cases hn
  · exact ⟨rfl, rfl, hst, hshort, Readable.passed hrel, hstart⟩

/-- Taking the next token, which is known and does not end the line. -/
theorem advance_runs (h : P.Mid p (k :: ks) s t) (hk : k.isNewline = false) :
    P.Runs cr p Parser.advance Parser.advance s t (P.Taken p k ks s t) := by
  apply (next_known h hk).bind
  rintro _ _ s' t' - - ⟨u, v, rfl, rfl, ht⟩
  exact Runs.pure ht

theorem advanceText_reads [P.Readable] (h : P.Mid p (k :: ks) s t) (hk : k.isNewline = false) :
    P.Reads cr p Parser.advanceText Parser.advanceText s t (fun _ => ks)
      fun _ s' t' => Still s t s' t' ∧ Shorter s t s' t' := by
  apply (advance_runs h hk).bind
  intro u v s' t' _ _ ht
  exact Runs.pure ⟨(Readable.like ht.tok).lexeme, .of_eq ht.still.1, ht.mid, ht.still, ht.shorter⟩

theorem run_lift_reading_bind {β : Type} (x : Reading α) (f : α → Reading β) (s : Session) :
    (liftM (x >>= f) : Parser β).run s =
      ((liftM x : Parser α) >>= fun a => (liftM (f a) : Parser β)).run s := by
  have hlift : (liftM x : Parser α).run s = Parser.read x s := rfl
  show Parser.read (x >>= f) s = _
  unfold Parser.read at *
  cases hx : x.run s.tokens with
  | mk r u =>
    rw [hx] at hlift
    cases r with
    | error e => rw [run_bind_error hx, run_bind_error hlift]
    | ok a =>
      rw [run_bind_ok hx, run_bind_ok hlift]
      rfl

/-- What taking a token that passes a test answers. -/
inductive Eaten (P : Pairing) (p : Place) (ks : List TokenKind) (test : TokenKind → Bool)
    (s t s' t' : Session) : Option Token → Option Token → Prop
  | none : Still s t s' t' → P.Mid p ks s' t' → (∀ k, ks[0]? = some k → test k = false) →
      P.Eaten p ks test s t s' t' none none
  | token {u v : Token} : test u.kind = true → (∀ k, ks[0]? = some k → u.kind = k) →
      P.Taken p u.kind ks.tail s t u v s' t' → P.Eaten p ks test s t s' t' (some u) (some v)

/-- Taking a token if it passes a test. Alike tokens are of one kind, so both runs take what is at
the front or neither does. -/
theorem consumeIf_tested [P.Readable] (h : P.Mid p ks s t) (test : TokenKind → Bool)
    {Q : Option Token → Option Token → Session → Session → Prop}
    (hkept : ∀ s' t', Still s t s' t' → P.Mid p ks s' t' →
      (∀ k, ks[0]? = some k → test k = false) → Q none none s' t')
    (htaken : ∀ k s' t', s.tokens.Follows s'.tokens → t.tokens.Follows t'.tokens →
      Still s t s' t' → P.Mid p (k :: ks.tail) s' t' → test k = true →
      (∀ k', ks[0]? = some k' → k = k') →
      P.Runs cr p (liftM TokenStream.next) (liftM TokenStream.next) s' t' Q) :
    P.Runs cr p (liftM (TokenStream.consumeIf fun t => test t.kind))
      (liftM (TokenStream.consumeIf fun t => test t.kind)) s t Q := by
  unfold Runs
  rw [TokenStream.consumeIf, run_lift_reading_bind, run_lift_reading_bind]
  change P.Runs cr p _ _ s t _
  apply (peek_zero h).bind
  rintro a a' s' t' hs ht ⟨hst, hseen⟩
  cases hseen with
  | none hks _ _ hm =>
    subst hks
    exact Runs.pure (hkept s' t' hst hm (by simp))
  | @token u v htok hk hm =>
    have hkind := (Readable.like htok).kind
    dsimp only
    rw [← hkind]
    split
    next hu => exact htaken u.kind s' t' hs ht hst hm hu hk
    next hu =>
      refine Runs.pure (hkept s' t' hst ⟨hm.rel, hm.steps, ?_⟩ fun k h => ?_)
      · cases ks with
        | nil => exact trivial
        | cons k ks => exact hk k rfl ▸ hm.ahead
      · rw [← hk k h]
        simpa using hu

/-- Taking a token if it passes a test that no newline passes. -/
theorem consumeIf_runs [P.Readable] (h : P.Mid p ks s t) (test : TokenKind → Bool)
    (htest : ∀ k, test k = true → k.isNewline = false) :
    P.Runs cr p (liftM (TokenStream.consumeIf fun t => test t.kind))
      (liftM (TokenStream.consumeIf fun t => test t.kind)) s t
      fun a a' s' t' => P.Eaten p ks test s t s' t' a a' := by
  refine consumeIf_tested h test (fun _ _ => .none) fun k s' t' hs ht hst hm hu hk => ?_
  apply (next_known hm (htest _ hu)).imp
  rintro _ _ s'' t'' - - ⟨u, v, rfl, rfl, htaken⟩
  have htaken' := Taken.follows hs ht hst htaken
  rw [← htaken.kind] at hu hk htaken'
  exact .token hu hk htaken'

/-- Taking an operator if it is next. -/
theorem eatOperator_reads [P.Readable] (h : P.Mid p ks s t) (op : Operator) :
    P.Reads cr p (Parser.eatOperator op) (Parser.eatOperator op) s t
      (fun a => if a then ks.tail else ks)
      fun a s' t' => (∀ k, ks[0]? = some k → a = k.isOperator op) ∧ Still s t s' t' ∧
        (a = true → Shorter s t s' t') := by
  refine (consumeIf_runs h (·.isOperator op) fun k hk => ?_).bind ?_
  · cases k <;> simp_all [TokenKind.isOperator, TokenKind.isNewline]
  · rintro a a' s' t' - - heaten
    cases heaten with
    | none hst hm hk =>
      exact Runs.pure ⟨rfl, .of_eq hst.1, hm, fun k h => (hk k h).symm, hst, by simp⟩
    | token hu hk ht =>
      exact Runs.pure ⟨rfl, .of_eq ht.still.1, ht.mid, fun k h => by rw [← hk k h]; exact hu.symm,
        ht.still, fun _ => ht.shorter⟩

/-- A rule that fails at the next token. -/
theorem unexpected_runs [P.Readable] (h : P.Mid p ks s t) (expected : List String)
    (Q : α → α → Session → Session → Prop) :
    P.Runs cr p (Parser.unexpected expected) (Parser.unexpected expected) s t Q := by
  apply (peek_zero h).bind
  rintro a a' s' t' - - ⟨-, hseen⟩
  cases hseen with
  | none hks _ _ hm => exact .broken (.refl _) (.refl _) (Readable.endOfInput expected) hm
  | token htok hk hm =>
    exact .broken (.refl _) (.refl _) (Readable.unexpected expected htok) hm.weaken

theorem unexpectedToken_runs [P.Readable] (h : P.Mid p ks s t) {u v : Token} (htok : P.tok u v)
    (expected : List String) (Q : α → α → Session → Session → Prop) :
    P.Runs cr p (Parser.unexpectedToken u expected) (Parser.unexpectedToken v expected) s t Q :=
  .broken (.refl _) (.refl _) (Readable.unexpected expected htok) h.weaken

theorem expectOperator_reads [P.Readable] (h : P.Mid p ks s t) (op : Operator) :
    P.Reads cr p (Parser.expectOperator op) (Parser.expectOperator op) s t (fun _ => ks.tail)
      fun _ s' t' => Still s t s' t' ∧ Shorter s t s' t' := by
  apply (eatOperator_reads h op).bind
  rintro (_ | _) s' t' - - hw hm ⟨-, hst, hlt⟩
  · exact unexpected_runs hm _ _
  · exact Runs.pure ⟨rfl, hw, hm, hst, hlt rfl⟩

/-- What taking a newline answers. -/
inductive Ended (P : Pairing) (p : Place) (ks : List TokenKind) (s t s' t' : Session) : Bool → Prop
  | more : Still s t s' t' → P.Mid p ks s' t' → (∀ k, ks[0]? = some k → k.isNewline = false) →
      P.Ended p ks s t s' t' false
  | ended : Still s t s' t' → Shorter s t s' t' → P.Between p s' t' → P.Ended p ks s t s' t' true

theorem eatNewline_runs [P.Readable] (h : P.Mid p ks s t) :
    P.Runs cr p Parser.eatNewline Parser.eatNewline s t
      fun a a' s' t' => a = a' ∧ P.Ended p ks s t s' t' a := by
  -- The token itself is dropped; what counts is whether one was taken.
  refine Runs.bind (Q := fun a a' s' t' => a.isSome = a'.isSome ∧ P.Ended p ks s t s' t' a.isSome)
    ?_ fun a a' s' t' _ _ h => Runs.pure h
  refine consumeIf_tested h TokenKind.isNewline (fun _ _ hst hm hk => ⟨rfl, .more hst hm hk⟩)
    fun k s' t' hs ht hst hm hu _ => ?_
  apply (next_newline hm hu).imp
  rintro a a' s'' t'' - - ⟨ha, ha', hst', hshort, hb⟩
  rw [ha, ha']
  exact ⟨rfl, .ended (hst.trans hst') (hshort.mono hs ht) hb⟩

/-- Ending a line builds nothing. -/
theorem endOfLine_runs [P.Readable] (h : P.Mid p ks s t) :
    P.Runs cr p Parser.endOfLine Parser.endOfLine s t fun _ _ s' t' =>
      Still s t s' t' ∧ P.Between p s' t' := by
  apply (eatNewline_runs h).bind
  rintro a _ s' t' - - ⟨rfl, hended⟩
  cases hended with
  | ended hst _ hb => exact Runs.pure ⟨hst, hb⟩
  | more hst hm _ =>
    apply (peekKind_zero hm).bind
    rintro (_ | k) s'' t'' - - - hm ⟨-, hst', hend⟩
    · obtain ⟨hs, ht⟩ := hend rfl
      refine Runs.pure ⟨(hst.trans hst'), Readable.passed hm.rel, ?_⟩
      have hnil := hm.steps
      rw [hs, ht] at hnil ⊢
      cases hnil with
      | nil h => exact h
    · exact unexpected_runs hm _ _

/-! Questions about the tokens ahead -/

/-- A question about the token behind tokens that are known, or about one of them. -/
theorem atKind_reads [P.Readable] {f : Option TokenKind → Bool} {n : Nat} (h : P.Mid p ks s t)
    (hn : n ≤ ks.length) (hks : ∀ k ∈ ks.take n, k.isNewline = false) (hi : n ≤ maxLookahead) :
    P.Reads cr p (do return f (← Parser.peekKind n)) (do return f (← Parser.peekKind n)) s t
      (fun _ => ks) fun a s' t' => Still s t s' t' ∧ ∀ k, ks[n]? = some k → a = f (some k) := by
  obtain hlt | rfl := Nat.lt_or_eq_of_le hn
  · have hk : ks[n]? = some ks[n] := List.getElem?_eq_getElem hlt
    apply (peekKind_known h hk hks hi).then
    rintro _ s' t' - - - hm ⟨rfl, hst⟩
    refine Reads.pure hm ⟨hst, fun k h => ?_⟩
    rw [← h, hk]
  · rw [List.take_length] at hks
    apply (peekKind_next h hks hi).then
    rintro a s' t' - - - hm ⟨hst, -⟩
    refine Reads.pure ⟨hm.rel, hm.steps, ?_⟩ ⟨hst, by simp⟩
    simpa using hm.ahead.take ks.length

/-- A question about the next token. -/
theorem atKind_zero [P.Readable] {f : Option TokenKind → Bool} (h : P.Mid p ks s t) :
    P.Reads cr p (do return f (← Parser.peekKind 0)) (do return f (← Parser.peekKind 0)) s t
      (fun _ => []) fun a s' t' => Still s t s' t' ∧
        ∃ k, a = f k ∧ P.Mid p (known ks k) s' t' := by
  apply (peekKind_zero h).then
  rintro a s' t' - - - hm ⟨-, hst, -⟩
  exact Reads.pure hm.weaken ⟨hst, a, rfl, hm⟩

theorem atOperator_reads [P.Readable] {n : Nat} (h : P.Mid p ks s t) (hn : n ≤ ks.length)
    (hks : ∀ k ∈ ks.take n, k.isNewline = false) (hi : n ≤ maxLookahead) (op : Operator) :
    P.Reads cr p (Parser.atOperator n op) (Parser.atOperator n op) s t (fun _ => ks)
      fun a s' t' => Still s t s' t' ∧ ∀ k, ks[n]? = some k → a = k.isOperator op :=
  atKind_reads (f := (·.any (·.isOperator op))) h hn hks hi

theorem isOperator_eq_true {k : TokenKind} {op : Operator} :
    k.isOperator op = true ↔ k = .operator op := by
  cases k <;> simp [TokenKind.isOperator]

/-- An operator that is seen is known from then on. -/
theorem atOperator_next [P.Readable] (h : P.Mid p ks s t) (hks : ∀ k ∈ ks, k.isNewline = false)
    (hi : ks.length ≤ maxLookahead) (op : Operator) :
    P.Reads cr p (Parser.atOperator ks.length op) (Parser.atOperator ks.length op) s t
      (fun a => if a then ks ++ [.operator op] else ks) fun _ s' t' => Still s t s' t' := by
  apply (peekKind_next h hks hi).then
  rintro k s' t' - - - hm ⟨hst, -⟩
  refine Reads.pure ?_ hst
  split
  next hop =>
    cases k with
    | none => simp at hop
    | some k =>
      obtain rfl : k = .operator op := isOperator_eq_true.1 (by simpa using hop)
      exact hm
  next => exact ⟨hm.rel, hm.steps, by simpa using hm.ahead.take ks.length⟩

theorem isNewline_of_isName {k : TokenKind} (h : k.isName = true) : k.isNewline = false := by
  cases k <;> simp_all [TokenKind.isName, TokenKind.isNewline]

theorem expectName_reads [P.Readable] (h : P.Mid p ks s t) (role : String) :
    P.Reads cr p (Parser.expectName role) (Parser.expectName role) s t (fun _ => ks.tail)
      fun _ s' t' => Still s t s' t' := by
  apply (atKind_zero (f := (·.any (·.isName))) h).then
  rintro (_ | _) s' t' - - - - ⟨hst, k, hk, hm⟩
  · exact unexpected_runs hm _ _
  · cases k with
    | none => simp at hk
    | some k =>
      apply (advanceText_reads hm (isNewline_of_isName (by simpa using hk.symm))).imp
      rintro a s'' t'' - hm ⟨hst', -⟩
      exact ⟨hm, hst.trans hst'⟩

theorem expectString_reads [P.Readable] (h : P.Mid p ks s t) :
    P.Reads cr p Parser.expectString Parser.expectString s t (fun _ => ks.tail)
      fun _ s' t' => Still s t s' t' := by
  apply (peekKind_zero h).then
  rintro (_ | k) s' t' - - - hm ⟨-, hst, -⟩
  · exact unexpected_runs hm _ _
  · cases k with
    | string x =>
      apply (advance_runs hm rfl).bind
      intro u v s'' t'' _ _ ht
      exact Runs.pure ⟨rfl, .of_eq ht.still.1, ht.mid, hst.trans ht.still⟩
    | _ => exact unexpected_runs hm _ _

theorem parenString_reads [P.Readable] (h : P.Mid p ks s t) :
    P.Reads cr p Parser.parenString Parser.parenString s t (fun _ => [])
      fun _ s' t' => Still s t s' t' := by
  apply (expectOperator_reads h .leftParen).then
  rintro _ s t - - - hm ⟨hst, -⟩
  apply (expectString_reads hm).then
  rintro x s t - - - hm hst'
  apply (expectOperator_reads hm .rightParen).then
  rintro _ s t - - - hm ⟨hst'', -⟩
  exact Reads.pure hm.weaken (hst.trans (hst'.trans hst''))

theorem optionalParenString_reads [P.Readable] (h : P.Mid p ks s t) :
    P.Reads cr p Parser.optionalParenString Parser.optionalParenString s t (fun _ => [])
      fun _ s' t' => Still s t s' t' := by
  apply (atOperator_reads h (Nat.zero_le _) (by simp) (Nat.zero_le _) .leftParen).then
  rintro (_ | _) s' t' - - - hm ⟨hst, -⟩
  · exact Reads.pure hm.weaken hst
  · apply ((parenString_reads hm).map some).imp
    rintro a s'' t'' - hm ⟨b, rfl, hst'⟩
    exact ⟨hm, hst.trans hst'⟩

/-! Lists of items -/

/-- An item is read, and the operator behind it if another one follows. -/
theorem nextItem_reads [P.Readable] {op : Operator} {item : Parser α} {items : List α}
    {T : Builder → α → Prop} (hT : ∀ b b' a, b.Within b' → T b a → T b' a)
    (hitem : ∀ s t, P.Mid p [] s t →
      P.Reads cr p item item s t (fun _ => []) fun a s' _ => T s'.builder a)
    (h : P.Mid p [] s t) (hitems : ∀ a ∈ items, T s.builder a) :
    P.Reads cr p (Parser.nextItem op item items) (Parser.nextItem op item items) s t (fun _ => [])
      fun r s' t' => (∀ a ∈ r.1, T s'.builder a) ∧ (r.2 = true → Shorter s t s' t') := by
  apply (hitem s t h).then
  intro a s₁ t₁ hs ht hw₁ hm₁ ha
  apply (eatOperator_reads hm₁ op).then
  intro go s₂ t₂ _ _ hw₂ hm₂ ⟨_, _, hshort⟩
  refine Reads.pure hm₂.weaken ⟨fun a' ha' => ?_, fun hgo => (hshort hgo).mono hs ht⟩
  obtain ha' | rfl := by simpa using ha'
  · exact hT _ _ _ (hw₁.trans hw₂) (hitems a' ha')
  · exact hT _ _ _ hw₂ ha

/-- What holds of each item of a list holds of all of them, as long as reading on does not undo
it. -/
theorem separated_reads [P.Readable] {op : Operator} {item : Parser α} {T : Builder → α → Prop}
    (hT : ∀ b b' a, b.Within b' → T b a → T b' a)
    (hitem : ∀ s t, P.Mid p [] s t →
      P.Reads cr p item item s t (fun _ => []) fun a s' _ => T s'.builder a)
    (h : P.Mid p [] s t) :
    P.Reads cr p (Parser.separated op item) (Parser.separated op item) s t (fun _ => [])
      fun as s' _ => ∀ a ∈ as, T s'.builder a := by
  exact Reads.iterate (T := fun b as => ∀ a ∈ as, T b a)
    (fun as s t hm has => nextItem_reads hT hitem hm has) h (by simp)

theorem parenthesized_reads [P.Readable] {item : Parser α} {T : Builder → α → Prop}
    (hT : ∀ b b' a, b.Within b' → T b a → T b' a)
    (hitem : ∀ s t, P.Mid p [] s t →
      P.Reads cr p item item s t (fun _ => []) fun a s' _ => T s'.builder a)
    (h : P.Mid p ks s t) :
    P.Reads cr p (Parser.parenthesized item) (Parser.parenthesized item) s t (fun _ => [])
      fun as s' _ => ∀ a ∈ as, T s'.builder a := by
  apply (expectOperator_reads h .leftParen).then
  intro _ s₁ t₁ _ _ _ hm _
  apply (eatOperator_reads hm .rightParen).then
  rintro (_ | _) s₂ t₂ - - - hm -
  · apply (separated_reads hT hitem hm.weaken).then
    intro as s₃ t₃ _ _ _ hm has
    apply (expectOperator_reads hm .rightParen).then
    intro _ s₄ t₄ _ _ hw hm _
    exact Reads.pure hm.weaken fun a ha => hT _ _ _ hw (has a ha)
  · exact Reads.pure hm.weaken (by simp)

/-! Acting on the builder -/

/-- An action answers alike on two builders, and does no more than report problems. -/
def Answers (P : Pairing) (p : Place) (x : Build α) (b c : Builder) (R : Builder → α → Prop) :
    Prop :=
  P.Agree (fun a b' c' => P.rel p b' c' ∧ b.Within b' ∧ R b' a) (x.run b) (x.run c)

theorem runs_build {x : Build α} {Q : α → Builder → Builder → Prop}
    (hx : P.Agree Q (x.run s.builder) (x.run t.builder)) :
    P.Runs cr p (liftM x) (liftM x) s t fun a a' s' t' =>
      a = a' ∧ Q a s'.builder t'.builder ∧ s'.steps = s.steps ∧ t'.steps = t.steps := by
  show P.Ends cr p s t _ _ _
  rw [run_lift_build, run_lift_build]
  revert hx
  generalize x.run s.builder = r
  generalize x.run t.builder = r'
  intro hx
  cases hx with
  | ok hq => exact .ok (.refl _) (.refl _) ⟨rfl, hq, rfl, rfl⟩
  | stopped h => exact .stopped h
  | left h => exact .left h
  | right h => exact .right h

theorem reads_build (h : P.Mid p ks s t) {x : Build α} {R : Builder → α → Prop}
    (hx : P.Answers p x s.builder t.builder R) :
    P.Reads cr p (liftM x) (liftM x) s t (fun _ => ks) fun a s' _ => R s'.builder a := by
  apply (runs_build hx).imp
  rintro a _ s' t' - - ⟨rfl, ⟨hrel, hwithin, hR⟩, hs, ht⟩
  exact ⟨rfl, hwithin, ⟨hrel, hs ▸ ht ▸ h.steps, hs ▸ h.ahead⟩, hR⟩

/-- What an action leaves behind on the left holds next to what it keeps. -/
theorem Agree.leaves {x : Build α} {b : Builder} {Q : α → Builder → Builder → Prop}
    {R : Builder → Prop} {r : Except Fatal α × Builder} (h : P.Agree Q (x.run b) r)
    (hx : x.Leaves b R) : P.Agree (fun a b' c' => Q a b' c' ∧ R b') (x.run b) r := by
  unfold Build.Leaves at hx
  generalize x.run b = r' at *
  cases h with
  | ok hq => exact .ok ⟨hq, hx _ _ rfl⟩
  | stopped h => exact .stopped h
  | left h => exact .left h
  | right h => exact .right h

/-- What a rule builds when its line is over. -/
theorem completes_build [P.Readable] (h : P.Mid p ks s t) {x : Build α}
    (hx : P.Keeps p x s.builder t.builder) :
    P.Completes cr p (do Parser.endOfLine; x) s t := by
  apply (endOfLine_runs h).bind
  rintro _ _ s' t' - - ⟨hst, hb⟩
  rw [← hst.1, ← hst.2] at hx
  apply (runs_build hx).imp
  rintro a a' s'' t'' - - ⟨rfl, hrel, hs, ht⟩
  exact ⟨rfl, hrel, hs ▸ ht ▸ hb.steps⟩

theorem runs_change {f g : Builder → Builder} :
    P.Runs cr p (Act.change f) (Act.change g) s t fun _ _ s' t' =>
      s' = { s with builder := f s.builder } ∧ t' = { t with builder := g t.builder } :=
  .ok (.refl _) (.refl _) ⟨rfl, rfl⟩

end Pairing
end PirFrontend
