import PirFrontend.Proofs.Steps

/-!
The buffer of a token stream. Whatever is asked of the stream, and in whatever order, it behaves
as the plain list of the lexer's tokens with the plain list of the lexer's faults beside it.
-/
namespace PirFrontend

/-- The tokens among some steps. -/
def tokensOf (L : List Step) : List Token := L.filterMap Except.toOption

/-- The faults among some steps. -/
def faultsOf (L : List Step) : List LexFault := L.filterMap fun
  | .error f => some f
  | .ok _ => none

@[simp] theorem tokensOf_nil : tokensOf [] = [] := rfl

@[simp] theorem tokensOf_ok (t : Token) (L : List Step) :
    tokensOf (.ok t :: L) = t :: tokensOf L := rfl

@[simp] theorem tokensOf_error (f : LexFault) (L : List Step) :
    tokensOf (.error f :: L) = tokensOf L := rfl

@[simp] theorem faultsOf_nil : faultsOf [] = [] := rfl

@[simp] theorem faultsOf_ok (t : Token) (L : List Step) :
    faultsOf (.ok t :: L) = faultsOf L := rfl

@[simp] theorem faultsOf_error (f : LexFault) (L : List Step) :
    faultsOf (.error f :: L) = f :: faultsOf L := rfl

theorem lookAt_cases (n : Nat) (L : List Step) :
    lookAt n L = (.ok (tokensOf L)[n]?, L) ∨
      ∃ f L', lookAt n L = (.error f, L') ∧ tokensOf L' = tokensOf L ∧
        faultsOf L = f :: faultsOf L' := by
  induction n, L using lookAt.induct with
  | case1 n => exact .inl (by simp [lookAt])
  | case2 n f L => exact .inr ⟨f, L, by simp [lookAt], rfl, rfl⟩
  | case3 t L => exact .inl (by simp [lookAt])
  | case4 n t L ih =>
    obtain h | ⟨f, L', h, ht, hf⟩ := ih
    · exact .inl (by simp [lookAt, h])
    · exact .inr ⟨f, .ok t :: L', by simp [lookAt, h], by simp [ht], by simp [hf]⟩

/-- Going past a newline takes the tokens up to it and the faults among them. -/
theorem afterLine_cases (L : List Step) :
    ∃ fs, faultsOf L = fs ++ faultsOf (afterLine L) ∧
      ((∃ line nl, tokensOf L = line ++ nl :: tokensOf (afterLine L) ∧
          (∀ t ∈ line, ¬t.kind.isNewline) ∧ nl.kind.isNewline) ∨
        (∀ t ∈ tokensOf L, ¬t.kind.isNewline) ∧ afterLine L = []) := by
  induction L with
  | nil => exact ⟨[], rfl, .inr ⟨by simp, rfl⟩⟩
  | cons step L ih =>
    obtain ⟨fs, hfs, h⟩ := ih
    cases step with
    | error f => exact ⟨f :: fs, by simp [afterLine, hfs], h⟩
    | ok t =>
      by_cases ht : t.kind.isNewline
      · exact ⟨[], by simp [afterLine, ht], .inl ⟨[], t, by simp [afterLine, ht], by simp, ht⟩⟩
      · have ha : afterLine (.ok t :: L) = afterLine L := by simp [afterLine, ht]
        refine ⟨fs, by simpa [ha] using hfs, ?_⟩
        rw [ha]
        obtain ⟨line, nl, hline, hnone, hnl⟩ | ⟨hnone, hnil⟩ := h
        · exact .inl ⟨t :: line, nl, by simp [hline], by simpa [ht] using hnone, hnl⟩
        · exact .inr ⟨by simpa [ht] using hnone, hnil⟩

theorem Lexer.skipLine_found (l : Lexer) :
    l.skipLine.1 = (tokensOf l.steps).any (·.kind.isNewline) := by
  fun_induction skipLine l with
  | case1 l l' h => simp [steps_of_done h]
  | case2 l t l' h hnl => simp [steps_of_token h, hnl]
  | case3 l t l' h hnl hlt ih => simp [steps_of_token h, hnl, ih]
  | case4 l f l' h hlt ih => simp [steps_of_fault h, ih]

/-- Only the end of the text keeps the lexer from finding a newline. -/
theorem Lexer.rest_skipLine (l : Lexer) (h : l.skipLine.1 = false) : l.skipLine.2.rest = [] := by
  fun_induction skipLine l with
  | case1 l l' hdone => exact rest_of_done hdone
  | case2 l t l' hnext hnl => cases h
  | case3 l t l' hnext hnl hlt ih => exact ih h
  | case4 l f l' hnext hlt ih => exact ih h

namespace TokenStream

theorem tokensOf_steps (s : TokenStream) : tokensOf s.steps = s.ahead ++ tokensOf s.unread := by
  unfold steps
  induction s.ahead with
  | nil => rfl
  | cons t ts ih => simp [ih]

/-- The end of the text is only noted when it was reached. -/
def Sound (s : TokenStream) : Prop := s.ended → s.lexer.rest = []

theorem unread_of_sound {s : TokenStream} (h : s.Sound) : s.unread = s.lexer.steps := by
  unfold unread
  split
  next he => rw [Lexer.steps_of_rest_nil (h he)]
  next => rfl

theorem sound_fill (n : Nat) {s : TokenStream} (h : s.Sound) : (s.fill n).2.Sound := by
  induction n generalizing s with
  | zero => exact h
  | succ n ih =>
    unfold fill
    split
    next => exact h
    next he =>
      have hopen (l : Lexer) (ts : List Token) : Sound ⟨l, ts, s.ended⟩ := fun hended =>
        absurd hended he
      split
      next => exact ih (hopen _ _)
      next l hdone => exact fun _ => Lexer.rest_of_done hdone
      next => exact hopen _ _

/-- An action notes the end of the text only when it has reached it. -/
def KeepsSound {α : Type} (x : Reading α) : Prop := ∀ s : TokenStream, s.Sound → (x.run s).2.Sound

theorem KeepsSound.bind {α β : Type} {x : Reading α} {f : α → Reading β} (hx : KeepsSound x)
    (hf : ∀ a, KeepsSound (f a)) : KeepsSound (x >>= f) := by
  intro s h
  have hs := hx s h
  rw [run_bind]
  cases hrun : x.run s with
  | mk r s' =>
    rw [hrun] at hs
    cases r with
    | ok a => exact hf a s' hs
    | error e => exact hs

theorem keepsSound_peek (index : Nat) : KeepsSound (peek index) := by
  unfold peek
  split
  · exact fun _ h => h
  · exact KeepsSound.bind (fun _ h => sound_fill _ h) fun _ => KeepsSound.bind (fun _ h => h)
      fun _ _ h => h

theorem keepsSound_next : KeepsSound next := by
  unfold next
  refine KeepsSound.bind (fun _ h => sound_fill _ h) fun _ s h => ?_
  rw [run_bind_ok (run_get s)]
  split
  · exact h
  · exact h

theorem keepsSound_consumeIf (test : Token → Bool) : KeepsSound (consumeIf test) := by
  unfold consumeIf
  refine KeepsSound.bind (keepsSound_peek 0) fun t => ?_
  split
  · split
    · exact keepsSound_next
    · exact fun _ h => h
  · exact fun _ h => h

/-- Skipping a line says whether there was a newline. -/
theorem skipLine_found {s : TokenStream} (h : s.Sound) :
    s.skipLine.1 = (tokensOf s.steps).any (·.kind.isNewline) := by
  have hsplit := List.takeWhile_append_dropWhile (p := (!·.kind.isNewline)) (l := s.ahead)
  have hfront : (s.ahead.takeWhile (!·.kind.isNewline)).any (·.kind.isNewline) = false := by
    have hall := List.all_takeWhile (p := (!·.kind.isNewline)) (l := s.ahead)
    simp [List.any_eq_not_all_not]
  rw [tokensOf_steps, unread_of_sound h, ← hsplit]
  simp only [List.any_append, hfront, Bool.false_or]
  unfold skipLine
  split
  next nl rest hdrop =>
    have hnl := List.head?_dropWhile_not (!·.kind.isNewline) s.ahead
    simp_all
  next hdrop => simp [hdrop, Lexer.skipLine_found]

theorem sound_skipLine {s : TokenStream} (h : s.Sound) : s.skipLine.2.Sound := by
  unfold skipLine
  split
  next => exact h
  next =>
    intro hended
    apply Lexer.rest_skipLine
    by_cases he : s.ended
    · simp [Lexer.skipLine_found, Lexer.steps_of_rest_nil (h he)]
    · simpa [he] using hended

/-- What can be asked of a stream. -/
inductive Call where
  | peek (index : Fin (maxLookahead + 1))
  | next
  | consumeIf (test : Token → Bool)
  | skipLine

/-- What a stream answers. -/
inductive Answer where
  | token (t : Option Token)
  | failure (e : ParseError)
  /-- Whether a newline was skipped. -/
  | skipped (newline : Bool)

def Answer.ofResult : Except ParseError (Option Token) → Answer
  | .ok t => token t
  | .error e => failure e

/-- The answer to a call, and the stream after it. -/
def ask (s : TokenStream) : Call → Answer × TokenStream
  | .peek index => ((peek index).run s).map .ofResult id
  | .next => (next.run s).map .ofResult id
  | .consumeIf test => ((consumeIf test).run s).map .ofResult id
  | .skipLine => s.skipLine.map .skipped id

/-- The answers to some calls, one after the other, and the stream after them. -/
def askAll (s : TokenStream) : List Call → List Answer × TokenStream
  | [] => ([], s)
  | c :: cs =>
    let (a, s') := s.ask c
    (askAll s' cs).map (a :: ·) id

/-- The tokens that were not taken yet, and the faults that were not met. -/
structure Remaining where
  tokens : List Token
  faults : List LexFault

def remaining (s : TokenStream) : Remaining := ⟨tokensOf s.steps, faultsOf s.steps⟩

/-- What a call answers on a list of tokens with faults beside it, which tokens it takes or drops,
and what it leaves. -/
inductive Serves : Remaining → Call → Answer → List Token → Remaining → Prop
  | peek {T F} (index) : Serves ⟨T, F⟩ (.peek index) (.token T[index]?) [] ⟨T, F⟩
  | next {t T F} : Serves ⟨t :: T, F⟩ .next (.token (some t)) [t] ⟨T, F⟩
  | nextNone {F} : Serves ⟨[], F⟩ .next (.token none) [] ⟨[], F⟩
  | consume {t T F} {test : Token → Bool} (h : test t) :
    Serves ⟨t :: T, F⟩ (.consumeIf test) (.token (some t)) [t] ⟨T, F⟩
  | keep {T F} {test : Token → Bool} (h : ∀ t ∈ T.head?, ¬test t) :
    Serves ⟨T, F⟩ (.consumeIf test) (.token none) [] ⟨T, F⟩
  | line {line nl T fs F} (h : ∀ t ∈ line, ¬t.kind.isNewline) (hnl : nl.kind.isNewline) :
    Serves ⟨line ++ nl :: T, fs ++ F⟩ .skipLine (.skipped true) (line ++ [nl]) ⟨T, F⟩
  | lastLine {T F} (h : ∀ t ∈ T, ¬t.kind.isNewline) :
    Serves ⟨T, F⟩ .skipLine (.skipped false) T ⟨[], []⟩
  /-- A fault may be met by any other call. It takes no token then. -/
  | fault {T f F c} (h : c ≠ .skipLine) :
    Serves ⟨T, f :: F⟩ c (.failure (.ofFault f)) [] ⟨T, F⟩

/-- What some calls answer, one after the other. -/
inductive ServesAll : Remaining → List Call → List Answer → List Token → Remaining → Prop
  | nil {R} : ServesAll R [] [] [] R
  | cons {R R' R'' c cs a as gone gone'} (h : Serves R c a gone R')
    (h' : ServesAll R' cs as gone' R'') :
    ServesAll R (c :: cs) (a :: as) (gone ++ gone') R''

theorem serves_peek (s : TokenStream) (index : Fin (maxLookahead + 1)) :
    Serves s.remaining (.peek index) (s.ask (.peek index)).1 []
      (s.ask (.peek index)).2.remaining := by
  obtain ⟨s', hrun, hs, -⟩ := peek_spec (Nat.le_of_lt_succ index.isLt) s
  simp only [ask, hrun, Prod.map, id]
  obtain h | ⟨f, L', h, ht, hf⟩ := lookAt_cases index s.steps
  · simp only [remaining, hs, h]
    exact .peek index
  · simp only [remaining, hs, h, hf, ht]
    exact .fault (by simp)

theorem serves_next (s : TokenStream) :
    ∃ gone, Serves s.remaining .next (s.ask .next).1 gone (s.ask .next).2.remaining := by
  obtain ⟨s', hrun, hs, -⟩ := next_spec s
  simp only [ask, hrun, Prod.map, id, remaining, hs]
  cases s.steps with
  | nil => exact ⟨[], .nextNone⟩
  | cons step L =>
    cases step with
    | ok t => exact ⟨[t], .next⟩
    | error f => exact ⟨[], .fault (by simp)⟩

theorem serves_consumeIf (s : TokenStream) (test : Token → Bool) :
    ∃ gone, Serves s.remaining (.consumeIf test) (s.ask (.consumeIf test)).1 gone
      (s.ask (.consumeIf test)).2.remaining := by
  obtain ⟨s', hpeek, hs', -⟩ := peek_spec (Nat.zero_le maxLookahead) s
  simp only [ask, Prod.map, id, remaining, consumeIf]
  cases hL : s.steps with
  | nil =>
    rw [hL] at hpeek hs'
    rw [run_bind_ok hpeek]
    exact ⟨[], by simpa [hs'] using .keep (by simp)⟩
  | cons step L =>
  cases step with
  | error f =>
    rw [hL] at hpeek hs'
    rw [run_bind_error hpeek]
    exact ⟨[], by simpa [hs', lookAt] using .fault (by simp)⟩
  | ok t =>
    rw [hL] at hpeek hs'
    rw [run_bind_ok hpeek]
    by_cases ht : test t
    · obtain ⟨s'', hnext, hs'', -⟩ := next_spec s'
      simp only [hs', lookAt, takeStep] at hnext hs''
      simp only [ht, if_true, hnext, hs'']
      exact ⟨[t], .consume ht⟩
    · simp only [ht]
      exact ⟨[], by simpa [hs', lookAt] using .keep (by simpa using ht)⟩

theorem serves_skipLine {s : TokenStream} (h : s.Sound) :
    ∃ gone, Serves s.remaining .skipLine (s.ask .skipLine).1 gone
      (s.ask .skipLine).2.remaining := by
  simp only [ask, Prod.map, id, remaining, skipLine_found h, steps_skipLine]
  obtain ⟨fs, hfs, ⟨line, nl, hline, hnone, hnl⟩ | ⟨hnone, hnil⟩⟩ := afterLine_cases s.steps
  · have hany : (tokensOf s.steps).any (·.kind.isNewline) = true := by
      rw [hline]
      simp [hnl]
    rw [hany, hline, hfs]
    exact ⟨_, .line hnone hnl⟩
  · have hany : (tokensOf s.steps).any (·.kind.isNewline) = false := by
      simpa using hnone
    rw [hany, hnil]
    exact ⟨_, .lastLine hnone⟩

/-- One call. -/
theorem serves_ask {s : TokenStream} (h : s.Sound) (c : Call) :
    (s.ask c).2.Sound ∧ ∃ gone, Serves s.remaining c (s.ask c).1 gone (s.ask c).2.remaining := by
  cases c with
  | peek index => exact ⟨keepsSound_peek index s h, [], serves_peek s index⟩
  | next => exact ⟨keepsSound_next s h, serves_next s⟩
  | consumeIf test => exact ⟨keepsSound_consumeIf test s h, serves_consumeIf s test⟩
  | skipLine => exact ⟨sound_skipLine h, serves_skipLine h⟩

/-- Any number of calls. -/
theorem servesAll_askAll {s : TokenStream} (h : s.Sound) (calls : List Call) :
    ∃ gone, ServesAll s.remaining calls (s.askAll calls).1 gone (s.askAll calls).2.remaining := by
  induction calls generalizing s with
  | nil => exact ⟨[], .nil⟩
  | cons c cs ih =>
    obtain ⟨hs, gone, hserves⟩ := serves_ask h c
    obtain ⟨gone', hall⟩ := ih hs
    exact ⟨gone ++ gone', .cons hserves hall⟩

/-- The errors among some answers. -/
def failures (answers : List Answer) : List ParseError := answers.filterMap fun
  | .failure e => some e
  | _ => none

/-- What is gone and what is left make up what there was. A fault that calls have gone past is
the answer of one of them, in its turn, or of none. -/
structure Balances (R R' : Remaining) (answers : List Answer) (gone : List Token) : Prop where
  tokens : gone ++ R'.tokens = R.tokens
  faults : ∃ passed met : List LexFault, passed ++ R'.faults = R.faults ∧ met.Sublist passed ∧
    failures answers = met.map .ofFault

namespace Balances
variable {R R' R'' : Remaining} {as bs : List Answer} {gone gone' : List Token}

/-- Without a failure nothing is said about the faults that were passed. -/
theorem of_no_failure (ht : gone ++ R'.tokens = R.tokens) {passed : List LexFault}
    (hp : passed ++ R'.faults = R.faults) (hf : failures as = []) : Balances R R' as gone :=
  ⟨ht, passed, [], hp, List.nil_sublist _, hf⟩

theorem append (h : Balances R R' as gone) (h' : Balances R' R'' bs gone') :
    Balances R R'' (as ++ bs) (gone ++ gone') := by
  obtain ⟨passed, met, hp, hsub, hf⟩ := h.faults
  obtain ⟨passed', met', hp', hsub', hf'⟩ := h'.faults
  refine ⟨by rw [List.append_assoc, h'.tokens, h.tokens], passed ++ passed', met ++ met',
    by rw [List.append_assoc, hp', hp], hsub.append hsub', ?_⟩
  rw [List.map_append, ← hf, ← hf']
  exact List.filterMap_append

end Balances

theorem Serves.balances {R R' : Remaining} {c : Call} {a : Answer} {gone : List Token}
    (h : Serves R c a gone R') : Balances R R' [a] gone := by
  cases h with
  | peek | nextNone | keep => exact .of_no_failure rfl (List.nil_append _) rfl
  | next | consume => exact .of_no_failure rfl (List.nil_append _) rfl
  | line => exact .of_no_failure (List.append_cons ..).symm rfl rfl
  | lastLine => exact .of_no_failure (List.append_nil _) (List.append_nil _) rfl
  | fault => exact ⟨rfl, [_], [_], rfl, List.Sublist.refl _, rfl⟩

theorem ServesAll.balances {R R' : Remaining} {cs : List Call} {as : List Answer}
    {gone : List Token} (h : ServesAll R cs as gone R') : Balances R R' as gone := by
  induction h with
  | nil => exact .of_no_failure rfl (List.nil_append _) rfl
  | cons h _ ih => exact h.balances.append ih

/-- The stream of a text is as good as the list of its tokens, with the list of its faults beside
it. Whatever is asked of it, the tokens that are gone are followed by those that are left, and no
fault is answered twice. -/
theorem servesAll_ofLexer (l : Lexer) (calls : List Call) :
    let text : Remaining := ⟨tokensOf l.steps, faultsOf l.steps⟩
    let (answers, s) := (ofLexer l).askAll calls
    ∃ gone, ServesAll text calls answers gone s.remaining ∧
      Balances text s.remaining answers gone := by
  have hsound : (ofLexer l).Sound := fun hended => absurd hended (by simp [ofLexer])
  obtain ⟨gone, h⟩ := servesAll_askAll hsound calls
  exact ⟨gone, h, h.balances⟩

end TokenStream
end PirFrontend
