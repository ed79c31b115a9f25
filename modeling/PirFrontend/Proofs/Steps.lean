import PirFrontend.Proofs.Running

namespace PirFrontend

/-- A token, or a fault in its place. -/
abbrev Step := Except LexFault Token

namespace Lexer

/-- All that the lexer still gives. -/
def steps (l : Lexer) : List Step := l.run.1

theorem steps_eq (l : Lexer) : l.steps =
    match l.next with
    | (.token t, l') => .ok t :: l'.steps
    | (.fault f, l') => .error f :: l'.steps
    | (.done, _) => [] := by
  unfold steps
  rw [run]
  split <;> simp_all

theorem steps_of_done {l l' : Lexer} (h : l.next = (.done, l')) : l.steps = [] := by
  rw [steps_eq, h]

theorem steps_of_rest_nil {l : Lexer} (h : l.rest = []) : l.steps = [] := by
  have hdone : l.next = (.done, l.pass [] []) := by simp [next, h, splitTrivia]
  exact steps_of_done hdone

theorem steps_of_token {l l' : Lexer} {t : Token} (h : l.next = (.token t, l')) :
    l.steps = .ok t :: l'.steps := by
  rw [steps_eq, h]

theorem steps_of_fault {l l' : Lexer} {f : LexFault} (h : l.next = (.fault f, l')) :
    l.steps = .error f :: l'.steps := by
  rw [steps_eq, h]

/-- The last step leaves nothing. -/
theorem rest_of_done {l l' : Lexer} (h : l.next = (.done, l')) : l'.rest = [] := by
  unfold next at h
  dsimp only at h
  split at h
  · cases h
    simp_all [pass]
  · unfold take at h
    dsimp only at h
    split at h <;> simp at h

end Lexer

/-- A text that scans has no faults. -/
theorem steps_of_tokens {l : Lexer} {ts : List Token} (h : l.tokens = .ok ts) :
    l.steps = ts.map .ok := by
  unfold Lexer.tokens at h
  -- The tokens are the steps if no step is a fault.
  change l.steps.mapM id = .ok ts at h
  generalize l.steps = L at h ⊢
  induction L generalizing ts with
  | nil =>
    cases h
    rfl
  | cons step L ih =>
    rw [List.mapM_cons] at h
    cases step with
    | error f => cases h
    | ok t =>
      cases hL : L.mapM id with
      | error f =>
        rw [hL] at h
        cases h
      | ok us =>
        rw [hL] at h
        cases h
        rw [ih hL]
        rfl

/-- A text whose steps are tokens scans. -/
theorem tokens_of_steps {l : Lexer} {ts : List Token} (h : l.steps = ts.map .ok) :
    l.tokens = .ok ts := by
  change l.steps.mapM id = .ok ts
  rw [h]
  clear h
  induction ts with
  | nil => rfl
  | cons t ts ih =>
    rw [List.map_cons, List.mapM_cons, ih]
    rfl

namespace TokenStream

/-- The steps that were not looked at. -/
def unread (s : TokenStream) : List Step := if s.ended then [] else s.lexer.steps

/-- What is left to read: the tokens that wait, then what the lexer gives. -/
def steps (s : TokenStream) : List Step := s.ahead.map .ok ++ s.unread

/-- A stream comes after another one: nothing was added, and each step that is gone has left
less to read. -/
structure Follows (s s' : TokenStream) : Prop where
  steps_le : s'.steps.length ≤ s.steps.length
  size_le : s'.size + s.steps.length ≤ s.size + s'.steps.length

namespace Follows

theorem refl (s : TokenStream) : Follows s s := ⟨by omega, by omega⟩

theorem trans {s s' s'' : TokenStream} (h : Follows s s') (h' : Follows s' s'') :
    Follows s s'' :=
  ⟨Nat.le_trans h'.steps_le h.steps_le, by have := h.size_le; have := h'.size_le; omega⟩

theorem size_lt {s s' : TokenStream} (h : Follows s s') (hlt : s'.steps.length < s.steps.length) :
    s'.size < s.size := by
  have := h.size_le
  omega

end Follows

end TokenStream

/-- Looks at the step at an index. The first fault on the way there is met, and thereby gone. -/
def lookAt : Nat → List Step → Except LexFault (Option Token) × List Step
  | _, [] => (.ok none, [])
  | _, .error f :: L => (.error f, L)
  | 0, .ok t :: L => (.ok (some t), .ok t :: L)
  | n + 1, .ok t :: L => ((lookAt n L).1, .ok t :: (lookAt n L).2)

theorem lookAt_append (ts : List Token) (n : Nat) (L : List Step) :
    lookAt (ts.length + n) (ts.map .ok ++ L) = ((lookAt n L).1, ts.map .ok ++ (lookAt n L).2) := by
  induction ts with
  | nil => simp
  | cons t ts ih =>
    rw [List.length_cons, Nat.add_right_comm]
    simp [lookAt, ih]

/-- Takes the next step. A fault that is met is gone. -/
def takeStep : List Step → Except LexFault (Option Token) × List Step
  | [] => (.ok none, [])
  | .error f :: L => (.error f, L)
  | .ok t :: L => (.ok (some t), L)

/-- What is behind the next newline. -/
def afterLine : List Step → List Step
  | [] => []
  | .ok t :: L => if t.kind.isNewline then L else afterLine L
  | .error _ :: L => afterLine L

theorem lookAt_of_lt {ts : List Token} {n : Nat} (h : n < ts.length) (L : List Step) :
    lookAt n (ts.map .ok ++ L) = (.ok ts[n]?, ts.map .ok ++ L) := by
  induction ts generalizing n with
  | nil => simp at h
  | cons t ts ih =>
    cases n with
    | zero => rfl
    | succ n => simp [lookAt, ih (Nat.lt_of_succ_lt_succ h)]

theorem lookAt_of_le {ts : List Token} {n : Nat} (h : ts.length ≤ n) :
    lookAt n (ts.map .ok) = (.ok none, ts.map .ok) := by
  obtain ⟨k, rfl⟩ := Nat.exists_eq_add_of_le h
  simpa [lookAt] using lookAt_append ts k []

theorem lookAt_fault {ts : List Token} {n : Nat} (h : ts.length ≤ n) (f : LexFault)
    (L : List Step) : lookAt n (ts.map .ok ++ .error f :: L) = (.error f, ts.map .ok ++ L) := by
  obtain ⟨k, rfl⟩ := Nat.exists_eq_add_of_le h
  simpa [lookAt] using lookAt_append ts k (.error f :: L)

namespace TokenStream

/-- Filling the buffer moves tokens there until there are enough or none is left, or a fault is
met. -/
theorem fill_cases (n : Nat) (s : TokenStream) :
    (∃ ts L s', s.fill n = (.ok (), s') ∧ s.unread = ts.map .ok ++ L ∧ s'.unread = L ∧
      s'.ahead = s.ahead ++ ts ∧ (ts.length = n ∨ L = []) ∧ s'.size ≤ s.size) ∨
    ∃ ts f L s', s.fill n = (.error (.ofFault f), s') ∧ s.unread = ts.map .ok ++ .error f :: L ∧
      s'.unread = L ∧ s'.ahead = s.ahead ++ ts ∧ ts.length < n ∧ s'.size < s.size := by
  induction n generalizing s with
  -- The induction is on the number of tokens that are still asked for.
  | zero => exact .inl ⟨[], s.unread, s, rfl, rfl, rfl, by simp, .inl rfl, Nat.le_refl _⟩
  | succ n ih =>
    by_cases he : s.ended
    · exact .inl ⟨[], [], s, by simp [fill, he], by simp [unread, he], by simp [unread, he],
        by simp, .inr rfl, Nat.le_refl _⟩
    have hlt := s.lexer.length_rest_next
    have hu : s.unread = s.lexer.steps := by simp [unread, he]
    rw [hu, Lexer.steps_eq]
    cases hn : s.lexer.next with
    | mk step l =>
    cases step with
    | done =>
      refine .inl ⟨[], [], { s with lexer := l, ended := true }, by simp [fill, he, hn], rfl,
        by simp [unread], by simp, .inr rfl, ?_⟩
      simp [size, Lexer.rest_of_done hn]
    | fault f =>
      -- A fault is taken off the text, but no token of it was kept.
      refine .inr ⟨[], f, l.steps, { s with lexer := l }, by simp [fill, he, hn], rfl,
        by simp [unread, he], by simp, by simp, ?_⟩
      simp [size]
      simp [hn] at hlt
      omega
    | token t =>
      -- The token goes to the end of the buffer, and the rest is filled from behind it.
      have hf : s.fill (n + 1) = fill n { s with lexer := l, ahead := s.ahead ++ [t] } := by
        simp [fill, he, hn]
      have hs : size { s with lexer := l, ahead := s.ahead ++ [t] } ≤ s.size := by
        simp [size]
        simp [hn] at hlt
        omega
      have hu' : unread { s with lexer := l, ahead := s.ahead ++ [t] } = l.steps := by
        simp [unread, he]
      obtain ⟨ts, L, s', h, hL, hL', ha, ht, hle⟩ | ⟨ts, f, L, s', h, hL, hL', ha, ht, hle⟩ :=
        ih { s with lexer := l, ahead := s.ahead ++ [t] }
      · refine .inl ⟨t :: ts, L, s', by rw [hf, h], by simp [← hL, hu'], hL', by simp [ha], ?_,
          by omega⟩
        simpa using ht
      · exact .inr ⟨t :: ts, f, L, s', by rw [hf, h], by simp [← hL, hu'], hL', by simp [ha],
          by simpa using ht, by omega⟩

theorem steps_of_unread {s : TokenStream} {L : List Step} (h : s.unread = L) :
    s.steps = s.ahead.map .ok ++ L := by
  rw [steps, h]

/-- Filling the buffer up to an index is looking at that index. -/
theorem fillTo_spec (index : Nat) (s : TokenStream) :
    ∃ s',
      (fillTo index).run s = (((lookAt index s.steps).1.map fun _ => ()).mapError .ofFault, s') ∧
      s'.steps = (lookAt index s.steps).2 ∧ s.Follows s' ∧
      ∀ v, (lookAt index s.steps).1 = .ok v → s'.ahead[index]? = v := by
  have hrun : (fillTo index).run s = s.fill (index + 1 - s.ahead.length) := rfl
  rw [hrun]
  obtain ⟨ts, L, s', h, hL, hL', ha, ht, hle⟩ | ⟨ts, f, L, s', h, hL, hL', ha, ht, hlt⟩ :=
    s.fill_cases (index + 1 - s.ahead.length)
  · have hs : s.steps = (s.ahead ++ ts).map .ok ++ L := by simp [steps, hL]
    have hs' : s'.steps = s.steps := by rw [hs, steps_of_unread hL', ha]
    have hF : s.Follows s' := ⟨by simp [hs'], by rw [hs']; omega⟩
    refine ⟨s', ?_⟩
    rw [h, ha]
    -- The buffer may be too short even so: then the text is over.
    by_cases hi : index < (s.ahead ++ ts).length
    · have hl := lookAt_of_lt hi L
      rw [← hs] at hl
      exact ⟨by simp [hl, Except.map], by simp [hl, hs'], hF, by simp [hl]⟩
    · have hlen : (s.ahead ++ ts).length ≤ index := Nat.le_of_not_lt hi
      obtain rfl : L = [] := by
        rw [List.length_append] at hlen
        exact ht.resolve_left (by omega)
      have hl := lookAt_of_le hlen
      rw [List.append_nil] at hs
      rw [← hs] at hl
      refine ⟨by simp [hl, Except.map], by simp [hl, hs'], hF, ?_⟩
      simp only [hl, Except.ok.injEq]
      intro v rfl
      exact List.getElem?_eq_none hlen
  · have hs : s.steps = (s.ahead ++ ts).map .ok ++ .error f :: L := by simp [steps, hL]
    have hs' : s'.steps = (s.ahead ++ ts).map .ok ++ L := by rw [steps_of_unread hL', ha]
    have hlen : (s.ahead ++ ts).length ≤ index := by
      rw [List.length_append]
      omega
    have hl := lookAt_fault hlen f L
    rw [← hs] at hl
    refine ⟨s', by rw [h, hl]; rfl, by simp [hl, hs'], ?_,
      by simp [hl]⟩
    constructor <;> rw [hs, hs'] <;> simp only [List.length_append, List.length_cons] <;> omega

/-- Peeking is looking at an index. -/
theorem peek_spec {index : Nat} (hi : index ≤ maxLookahead) (s : TokenStream) :
    ∃ s', (peek index).run s = ((lookAt index s.steps).1.mapError .ofFault, s') ∧
      s'.steps = (lookAt index s.steps).2 ∧ s.Follows s' := by
  obtain ⟨s', h, hs, hF, hv⟩ := fillTo_spec index s
  refine ⟨s', ?_, hs, hF⟩
  unfold peek
  rw [if_neg (Nat.not_lt.2 hi)]
  cases hl : (lookAt index s.steps).1 with
  | error f =>
    rw [hl] at h
    exact run_bind_error h
  | ok v =>
    rw [hl] at h
    rw [run_bind_ok h]
    simp only [run_bind, run_get, run_pure, hv v hl]
    rfl

/-- Taking a token is taking the next step. -/
theorem next_spec (s : TokenStream) :
    ∃ s', next.run s = ((takeStep s.steps).1.mapError .ofFault, s') ∧
      s'.steps = (takeStep s.steps).2 ∧ s.Follows s' := by
  obtain ⟨s', h, hs, hF, hv⟩ := fillTo_spec 0 s
  unfold next
  cases hL : s.steps with
  | nil =>
    rw [hL] at h hs hv
    have hv : s'.ahead[0]? = none := hv none rfl
    have ha : s'.ahead = [] := by simpa using hv
    refine ⟨s', ?_, hs, hF⟩
    rw [run_bind_ok h]
    simp only [run_bind, run_get, ha, run_pure]
    rfl
  | cons step L =>
  cases step with
  | error f =>
    rw [hL] at h hs
    exact ⟨s', run_bind_error h, hs, hF⟩
  | ok t =>
    rw [hL] at h hs hv
    have hv : s'.ahead[0]? = some t := hv (some t) rfl
    -- What was asked for is at the front of the buffer now.
    obtain ⟨rest, ha⟩ : ∃ rest, s'.ahead = t :: rest := by
      cases ha : s'.ahead with
      | nil => simp [ha] at hv
      | cons u rest => exact ⟨rest, by simpa [ha] using hv⟩
    have hrest : steps { s' with ahead := rest } = L := by
      have : s'.steps = .ok t :: steps { s' with ahead := rest } := by simp [steps, ha, unread]
      exact (List.cons.inj (this.symm.trans hs)).2
    refine ⟨{ s' with ahead := rest }, ?_, hrest, ?_⟩
    · rw [run_bind_ok h]
      simp only [run_bind, run_get, ha, run_set, run_pure]
      rfl
    · have hsize : size { s' with ahead := rest } + 1 = s'.size := by
        simp only [size, ha, List.length_cons]
        omega
      have := hF.size_le
      have hlen : s'.steps.length = s.steps.length := by rw [hs, hL]; rfl
      constructor <;> rw [hrest, hL] <;> simp only [List.length_cons]
      · omega
      · rw [hlen, hL] at this
        simp only [List.length_cons] at this
        omega

end TokenStream

theorem length_afterLine_le (L : List Step) : (afterLine L).length ≤ L.length := by
  induction L with
  | nil => exact Nat.le_refl _
  | cons step L ih =>
    cases step with
    | error f => exact Nat.le_succ_of_le ih
    | ok t =>
      simp only [afterLine, List.length_cons]
      split <;> omega

theorem length_afterLine_lt {L : List Step} (h : L ≠ []) : (afterLine L).length < L.length := by
  cases L with
  | nil => exact absurd rfl h
  | cons step L =>
    have hle := length_afterLine_le L
    cases step with
    | error f => exact Nat.lt_succ_of_le hle
    | ok t =>
      simp only [afterLine, List.length_cons]
      split <;> omega

/-- The lexer goes past the newline that its steps show, or else to the end of the text. -/
theorem Lexer.skipLine_spec (l : Lexer) :
    (if l.skipLine.1 then l.skipLine.2.steps else []) = afterLine l.steps ∧
      l.skipLine.2.rest.length + l.steps.length ≤ l.rest.length + (afterLine l.steps).length := by
  fun_induction skipLine l with
  | case1 l l' h =>
    rw [steps_of_done h, rest_of_done h]
    simp [afterLine]
  | case2 l t l' h hnl =>
    have hlt : l'.rest.length < l.rest.length := by
      simpa [h] using l.length_rest_next (by simp [h])
    rw [steps_of_token h]
    simp only [afterLine, hnl, if_true, List.length_cons]
    exact ⟨trivial, by omega⟩
  | case3 l t l' h hnl hlt ih =>
    rw [steps_of_token h]
    simp only [afterLine, hnl, List.length_cons]
    exact ⟨ih.1, by have := ih.2; simp; omega⟩
  | case4 l f l' h hlt ih =>
    rw [steps_of_fault h]
    simp only [afterLine, List.length_cons]
    exact ⟨ih.1, by have := ih.2; omega⟩

namespace TokenStream

theorem afterLine_map_ok (ts : List Token) (L : List Step) :
    afterLine (ts.map .ok ++ L) =
      match ts.dropWhile (!·.kind.isNewline) with
      | _ :: rest => rest.map .ok ++ L
      | [] => afterLine L := by
  induction ts with
  | nil => rfl
  | cons t ts ih =>
    by_cases hn : t.kind.isNewline
    · simp [afterLine, hn]
    · simpa [afterLine, hn] using ih

/-- Skipping a line goes past the next newline among the steps, wherever they wait. -/
theorem steps_skipLine (s : TokenStream) : s.skipLine.2.steps = afterLine s.steps := by
  have hl := s.lexer.skipLine_spec.1
  have ha := afterLine_map_ok s.ahead s.unread
  rw [← steps] at ha
  rw [ha]
  unfold skipLine
  cases s.ahead.dropWhile (!·.kind.isNewline) with
  | cons t rest => simp [steps, unread]
  | nil =>
    by_cases he : s.ended
    · simp [steps, unread, he, afterLine]
    · simp only [steps, unread, he]
      cases hf : s.lexer.skipLine.1 <;> simpa [hf] using hl

theorem follows_skipLine (s : TokenStream) : s.Follows s.skipLine.2 := by
  refine ⟨by rw [steps_skipLine]; exact length_afterLine_le _, ?_⟩
  rw [steps_skipLine]
  have ha := congrArg List.length (afterLine_map_ok s.ahead s.unread)
  rw [← steps] at ha
  have hsteps : s.steps.length = s.ahead.length + s.unread.length := by simp [steps]
  unfold skipLine
  -- A newline in the buffer ends the line there; otherwise the lexer has to look for it.
  split
  next nl rest h =>
    rw [h] at ha
    have hdrop :=
      (List.dropWhile_sublist (fun t : Token => !t.kind.isNewline) (l := s.ahead)).length_le
    rw [h] at hdrop
    simp only [size, List.length_append, List.length_map, List.length_cons] at ha hdrop ⊢
    omega
  next h =>
    rw [h] at ha
    have hl := s.lexer.skipLine_spec.2
    have hle := length_afterLine_le s.lexer.steps
    simp only [size, List.length_nil] at ha ⊢
    by_cases he : s.ended
    · simp only [unread, he, if_true, List.length_nil, afterLine] at ha hsteps
      omega
    · simp only [unread, he] at ha hsteps
      simp at ha hsteps
      omega

end TokenStream
end PirFrontend
