import PirFrontend.Proofs.Newlines
import PirFrontend.Proofs.Outcomes

/-!
Texts that are joined at a newline. Their steps are those of the parts, and two texts with a part
in common are read alike up to the newline behind it.
-/
namespace PirFrontend

theorem splitTrivia_newline (v b : List Char) :
    splitTrivia (v ++ '\n' :: b) = ((splitTrivia v).1, (splitTrivia v).2 ++ '\n' :: b) := by
  have hblank : isBlank '\n' = false := by decide
  have hcomment : ('\n' != '\n') = false := by decide
  unfold splitTrivia
  simp only [takeWhile_stop hblank, dropWhile_stop hblank]
  cases v.dropWhile isBlank with
  | nil => rfl
  | cons c rest =>
    by_cases hc : c = '#'
    · subst hc
      simp [takeWhile_stop (p := (· != '\n')) hcomment, dropWhile_stop (p := (· != '\n')) hcomment]
    · simp [hc]

@[simp]
theorem byteSize_nil : byteSize [] = 0 := rfl

theorem byteSize_append (v b : List Char) : byteSize (v ++ b) = byteSize v + byteSize b := by
  induction v with
  | nil => simp [byteSize]
  | cons c v ih =>
    simp only [byteSize, List.cons_append, List.foldr_cons] at ih ⊢
    omega

namespace Lexer

/-- The lexer of a text that goes on behind a newline. -/
def followed (l : Lexer) (b : List Char) : Lexer := { l with rest := l.rest ++ '\n' :: b }

/-- The lexer behind the text that is left and a newline. -/
def past (l : Lexer) (b : List Char) : Lexer :=
  { l.pass (l.rest ++ ['\n']) b with sign := .allowed }

/-- The newline behind the text that is left. -/
def newlineToken (l : Lexer) : Token :=
  ⟨.newline, String.ofList ['\n'], Span.between l.source (l.offset + byteSize l.rest)
    (l.offset + byteSize l.rest + byteSize ['\n']) (l.line + l.rest.count '\n')⟩

theorem pass_pass (l : Lexer) (u v rest rest' : List Char) :
    (l.pass u rest).pass v rest' = l.pass (u ++ v) rest' := by
  simp only [pass, byteSize_append, List.count_append, Nat.add_assoc]

theorem take_followed (l : Lexer) (q : Piece) (b : List Char) :
    l.take (q.followed ('\n' :: b)) = ((l.take q).1, (l.take q).2.followed b) := by
  obtain ⟨⟨code, message⟩ | kind, text, gap, rest⟩ := q <;> rfl

/-- A step passes over what it takes. -/
theorem next_passes (l : Lexer) : ∃ u sign,
    l.rest = u ++ l.next.2.rest ∧ l.next.2 = { l.pass u l.next.2.rest with sign } := by
  have htrivia := splitTrivia_append l.rest
  unfold next
  dsimp only
  split
  next hr =>
    exact ⟨(splitTrivia l.rest).1, l.sign, htrivia.symm, rfl⟩
  next c cs hr =>
    generalize hq : Piece.scan (l.sign.permits !(splitTrivia l.rest).1.isEmpty) c cs = q
    have hwhole : q.text ++ q.gap ++ q.rest = c :: cs :=
      hq ▸ Piece.whole_scan _ c cs
    have hrest : l.rest = (splitTrivia l.rest).1 ++ (q.text ++ q.gap) ++ q.rest := by
      rw [List.append_assoc, hwhole, ← hr, htrivia]
    refine ⟨(splitTrivia l.rest).1 ++ (q.text ++ q.gap), ?_⟩
    unfold take
    rw [pass_pass]
    cases q.reading with
    | ok kind => exact ⟨SignRule.after kind, hrest, rfl⟩
    | error fault => exact ⟨.allowed, hrest, rfl⟩

/-- A lexer that stands further on comes to the same newline. -/
theorem past_of_pass {l : Lexer} {u v : List Char} (h : l.rest = u ++ v) (sign : SignRule) :
    past { l.pass u v with sign } = l.past ∧
      newlineToken { l.pass u v with sign } = l.newlineToken := by
  constructor
  · funext b
    have hpass := l.pass_pass u (v ++ ['\n']) v b
    simp only [pass, Lexer.mk.injEq, true_and, and_true] at hpass
    simp only [past, pass, h, List.append_assoc, hpass]
  · simp only [newlineToken, pass, h, byteSize_append, List.count_append, Nat.add_assoc]

theorem past_next (l : Lexer) :
    l.next.2.past = l.past ∧ l.next.2.newlineToken = l.newlineToken := by
  obtain ⟨u, sign, hrest, hnext⟩ := l.next_passes
  rw [hnext]
  exact past_of_pass hrest sign

theorem next_followed {l : Lexer} (h : l.next.1 ≠ .done) (b : List Char) :
    (l.followed b).next = (l.next.1, l.next.2.followed b) := by
  unfold next at h ⊢
  simp only [followed, splitTrivia_newline]
  cases hr : (splitTrivia l.rest).2 with
  | nil => simp [hr] at h
  | cons c cs =>
    simp only [List.cons_append, Piece.scan_newline]
    exact take_followed _ _ b

/-- Where the text ends, the newline behind it is next. -/
theorem next_followed_done {l : Lexer} (h : l.next.1 = .done) (b : List Char) :
    (l.followed b).next = (.token l.newlineToken, l.past b) := by
  have htrivia := splitTrivia_append l.rest
  unfold next at h
  dsimp only at h
  split at h
  next hr =>
    rw [hr, List.append_nil] at htrivia
    unfold next
    simp only [followed, splitTrivia_newline, hr, htrivia, List.nil_append]
    rw [Piece.scan, if_pos rfl]
    unfold take
    simp only [Piece.token, List.append_nil, pass_pass]
    rfl
  next c cs hr =>
    unfold take at h
    dsimp only at h
    split at h <;> cases h

/-- The steps of a text are those of the part in front of a newline, and those behind it. -/
theorem steps_followed (l : Lexer) (b : List Char) :
    (l.followed b).steps = l.steps ++ .ok l.newlineToken :: (l.past b).steps := by
  -- The induction is on the text that is left, token by token.
  induction hn : l.rest.length using Nat.strongRecOn generalizing l with
  | ind n ih =>
  obtain ⟨hpast, hnewline⟩ := l.past_next
  have hlt := l.length_rest_next
  cases hnext : l.next with
  | mk step l' =>
  rw [hnext] at hpast hnewline hlt
  cases step with
  -- Where the first text is over, the newline and what is behind it are next.
  | done =>
    rw [steps_of_done hnext, steps_of_token (next_followed_done (by rw [hnext]) b)]
    rfl
  | token t =>
    have hfollowed := next_followed (l := l) (by simp [hnext]) b
    rw [hnext] at hfollowed
    rw [steps_of_token hnext, steps_of_token hfollowed, ih _ (hn ▸ hlt nofun) l' rfl]
    simp only at hpast hnewline
    rw [hpast, hnewline]
    rfl
  | fault f =>
    have hfollowed := next_followed (l := l) (by simp [hnext]) b
    rw [hnext] at hfollowed
    rw [steps_of_fault hnext, steps_of_fault hfollowed, ih _ (hn ▸ hlt nofun) l' rfl]
    simp only at hpast hnewline
    rw [hpast, hnewline]
    rfl

/-! Lexers at other places -/

theorem next_eq (l : Lexer) : l.next = match (splitTrivia l.rest).2 with
    | [] => (.done, l.pass (splitTrivia l.rest).1 (splitTrivia l.rest).2)
    | c :: cs => (l.pass (splitTrivia l.rest).1 (splitTrivia l.rest).2).take
        (Piece.scan (l.sign.permits !(splitTrivia l.rest).1.isEmpty) c cs) := rfl

/-- Lexer steps that are alike and leave texts that are related. -/
inductive Stepped (A : Likeness) (R : List Char → List Char → Prop) :
    LexStep × Lexer → LexStep × Lexer → Prop
  | token {t u : Token} {l m : Lexer} : A.Tokens t u → R l.rest m.rest → l.sign = m.sign →
      A.line l.line m.line → Stepped A R (.token t, l) (.token u, m)
  | fault {f g : LexFault} {l m : Lexer} : A.Errors (.ofFault f) (.ofFault g) →
      R l.rest m.rest → l.sign = m.sign → A.line l.line m.line →
      Stepped A R (.fault f, l) (.fault g, m)
  | done (l m : Lexer) : Stepped A R (.done, l) (.done, m)

theorem Stepped.imp {A : Likeness} {R R' : List Char → List Char → Prop}
    {x y : LexStep × Lexer} (h : Stepped A R x y)
    (hR : R x.2.rest y.2.rest → R' x.2.rest y.2.rest) : Stepped A R' x y := by
  cases h with
  | token htok hrest hsign hline => exact .token htok (hR hrest) hsign hline
  | fault hfault hrest hsign hline => exact .fault hfault (hR hrest) hsign hline
  | done => exact .done _ _

/-- The same piece is read alike, whatever text is behind it. -/
theorem take_stepped {A : Likeness} {R : List Char → List Char → Prop} {l m : Lexer}
    (hline : A.line l.line m.line) (q : Piece) {rest : List Char} (hrest : R q.rest rest) :
    Stepped A R (l.take q) (m.take { q with rest }) := by
  have hbehind := A.later ((q.text ++ q.gap).count '\n') hline
  obtain ⟨⟨code, message⟩ | kind, text, gap, rest'⟩ := q
  · exact .fault ⟨rfl, .some hline⟩ hrest rfl hbehind
  · exact .token ⟨⟨rfl, rfl⟩, hline⟩ hrest rfl hbehind

theorem next_stepped {A : Likeness} {l m : Lexer} (hrest : l.rest = m.rest)
    (hsign : l.sign = m.sign) (hline : A.line l.line m.line) : Stepped A Eq l.next m.next := by
  rw [next_eq, next_eq, hrest, hsign]
  cases (splitTrivia m.rest).2 with
  | nil => exact .done _ _
  | cons c cs => exact take_stepped (A.later ((splitTrivia m.rest).1.count '\n') hline) _ rfl

/-- Texts are read alike if each step is, and leaves texts of which this holds again. -/
theorem steps_of_stepped {A : Likeness} {R : List Char → List Char → Prop}
    (hnext : ∀ l m : Lexer, R l.rest m.rest → l.sign = m.sign → A.line l.line m.line →
      Stepped A R l.next m.next) {l m : Lexer} (hrest : R l.rest m.rest) (hsign : l.sign = m.sign)
    (hline : A.line l.line m.line) : List.Forall₂ (StepLike A) l.steps m.steps := by
  -- The induction is on the text that is left of the first one.
  induction hn : l.rest.length using Nat.strongRecOn generalizing l m with
  | ind n ih =>
  have hstep := hnext l m hrest hsign hline
  have hlt := l.length_rest_next
  cases hl : l.next with
  | mk step l' =>
  cases hm : m.next with
  | mk step' m' =>
  rw [hl, hm] at hstep
  rw [hl] at hlt
  cases hstep with
  | token htok hrest' hsign' hline' =>
    rw [steps_of_token hl, steps_of_token hm]
    exact .cons (.token htok) (ih _ (hn ▸ hlt nofun) hrest' hsign' hline' rfl)
  | fault hfault hrest' hsign' hline' =>
    rw [steps_of_fault hl, steps_of_fault hm]
    exact .cons (.fault hfault) (ih _ (hn ▸ hlt nofun) hrest' hsign' hline' rfl)
  | done =>
    rw [steps_of_done hl, steps_of_done hm]
    exact .nil

/-- The steps of a text are alike wherever it stands. -/
theorem steps_alike {A : Likeness} {l m : Lexer} (hrest : l.rest = m.rest) (hsign : l.sign = m.sign)
    (hline : A.line l.line m.line) : List.Forall₂ (StepLike A) l.steps m.steps :=
  steps_of_stepped (fun _ _ => next_stepped) hrest hsign hline

/-- A text is a last line, or a line and the text behind its newline. -/
theorem line_induction {motive : Lexer → Prop} (last : ∀ l : Lexer, '\n' ∉ l.rest → motive l)
    (line : ∀ (l : Lexer) (b : List Char), '\n' ∉ l.rest → motive (l.past b) →
      motive (l.followed b)) (l : Lexer) : motive l := by
  induction hn : l.rest.length using Nat.strongRecOn generalizing l with
  | ind n ih =>
  by_cases hl : '\n' ∈ l.rest
  · obtain ⟨v, b, hv, hnewline⟩ := List.eq_append_cons_of_mem hl
    have hfollowed : l = followed { l with rest := v } b := by
      rw [followed, ← hv]
    rw [hfollowed]
    refine line _ b hnewline (ih b.length ?_ _ rfl)
    rw [← hn, hv, List.length_append, List.length_cons]
    omega
  · exact last l hl

/-- A token that ends a line is a newline of the text. -/
theorem mem_of_isNewline {l l' : Lexer} {t : Token} (h : l.next = (.token t, l'))
    (ht : t.kind.isNewline = true) : '\n' ∈ l.rest := by
  rw [← splitTrivia_append l.rest]
  rw [next_eq] at h
  cases hr : (splitTrivia l.rest).2 with
  | nil =>
    rw [hr] at h
    cases h
  | cons c cs =>
    rw [hr] at h
    dsimp only at h
    cases hread : (Piece.scan (l.sign.permits !(splitTrivia l.rest).1.isEmpty) c cs).reading with
    | error fault =>
      unfold take at h
      rw [hread] at h
      cases h
    | ok kind =>
      unfold take at h
      rw [hread] at h
      cases h
      cases kind <;> try cases ht
      obtain rfl := Piece.scan_isNewline hread
      exact List.mem_append_right _ List.mem_cons_self

theorem pass_line {l : Lexer} {u : List Char} (h : '\n' ∉ u) (v : List Char) :
    (l.pass u v).line = l.line := by
  show l.line + u.count '\n' = l.line
  rw [List.count_eq_zero.2 h, Nat.add_zero]

/-- The newline behind a line is on that line. -/
theorem newlineToken_line {l : Lexer} (h : '\n' ∉ l.rest) : l.newlineToken.line = l.line :=
  pass_line h []

theorem past_line {l : Lexer} (h : '\n' ∉ l.rest) (b : List Char) :
    (l.past b).line = l.line + 1 := by
  show l.line + (l.rest ++ ['\n']).count '\n' = l.line + 1
  rw [List.count_append, List.count_eq_zero.2 h]
  rfl

/-- What is read in a text without a newline is on the line where the text begins. -/
theorem next_line {l : Lexer} (h : '\n' ∉ l.rest) : match l.next.1 with
    | .token t => t.line = l.line
    | .fault f => f.span.line = l.line
    | .done => True := by
  have htrivia : '\n' ∉ (splitTrivia l.rest).1 := fun hmem =>
    h (splitTrivia_append l.rest ▸ List.mem_append_left _ hmem)
  have hhere := pass_line (l := l) htrivia (splitTrivia l.rest).2
  rw [next_eq]
  cases (splitTrivia l.rest).2 with
  | nil => trivial
  | cons c cs =>
    dsimp only
    generalize Piece.scan _ c cs = q
    obtain ⟨⟨code, message⟩ | kind, text, gap, rest⟩ := q
    · exact hhere
    · exact hhere

/-- What is left of a line behind a step is on the line, too. -/
theorem next_inline {l : Lexer} (h : '\n' ∉ l.rest) :
    l.next.2.line = l.line ∧ '\n' ∉ l.next.2.rest := by
  obtain ⟨u, sign, hrest, hnext⟩ := l.next_passes
  refine ⟨?_, fun hmem => h (hrest ▸ List.mem_append_right u hmem)⟩
  rw [hnext]
  exact pass_line (l := l) (fun hmem => h (hrest ▸ List.mem_append_left _ hmem)) l.next.2.rest

end Lexer

/-- A step within the line with a number. -/
def Step.Inline (k : Nat) : Step → Prop
  | .ok t => t.line = k ∧ t.kind.isNewline = false
  | .error f => f.span.line = k

namespace Lexer

/-- In a text without a newline all steps are on the same line, and none ends it. -/
theorem inline_of_mem_steps {l : Lexer} {step : Step} (h : '\n' ∉ l.rest)
    (hs : step ∈ l.steps) : step.Inline l.line := by
  -- The step is the next one, or one of the shorter text behind it.
  induction hn : l.rest.length using Nat.strongRecOn generalizing l with
  | ind n ih =>
  obtain ⟨hline, h'⟩ := next_inline h
  have hlt := l.length_rest_next
  have hhere := next_line h
  cases hl : l.next with
  | mk next l' =>
  rw [hl] at hlt hline h' hhere
  have hlater (hmem : step ∈ l'.steps) (hstep : next ≠ .done) : step.Inline l.line :=
    hline ▸ ih _ (hn ▸ hlt hstep) h' hmem rfl
  cases next with
  | done =>
    rw [steps_of_done hl] at hs
    cases hs
  | fault f =>
    rw [steps_of_fault hl] at hs
    obtain rfl | hs := List.mem_cons.1 hs
    · exact hhere
    · exact hlater hs nofun
  | token t =>
    rw [steps_of_token hl] at hs
    obtain rfl | hs := List.mem_cons.1 hs
    · refine ⟨hhere, ?_⟩
      by_contra ht
      exact h (mem_of_isNewline hl (by simpa using ht))
    · exact hlater hs nofun

/-! Source texts -/

/-- The lexer of a source text behind `front`, where no operand has just ended. -/
def behind (front rest : String) : Lexer :=
  { (ofString 0 front).pass front.toList rest.toList with sign := .allowed }

theorem behind_empty (rest : String) : behind "" rest = ofString 0 rest := rfl

theorem steps_behind (front a b : String) : (behind front (a ++ "\n" ++ b)).steps =
    (behind front a).steps ++ .ok (behind front a).newlineToken ::
      (behind (front ++ a ++ "\n") b).steps := by
  have hpast : (behind front a).past b.toList = behind (front ++ a ++ "\n") b := by
    simp [behind, past, pass, ofString, byteSize_append, Nat.add_assoc]
  rw [← hpast, ← steps_followed]
  simp [behind, followed, pass]

/-- The steps of a source text are those of the part in front of a newline, and those behind it. -/
theorem steps_source (o : BuildOptions) (a b : String) :
    (Session.start (a ++ "\n" ++ b) o).steps =
      (behind "" a).steps ++ .ok (behind "" a).newlineToken :: (behind (a ++ "\n") b).steps := by
  have h := steps_behind "" a b
  rw [String.empty_append] at h
  exact h

theorem scan_invalid (signAllowed : Bool) (rest : List Char) : ∃ message,
    Piece.scan signAllowed '@' rest = .fault .invalidCharacter message ['@'] rest := by
  have hword : isWordStart '@' = false := by decide
  have hdigit : Char.isDigit '@' = false := by decide
  have hscan : Operator.scan? ('@' :: rest) = none := by
    simp [Operator.scan?, Operator.table, Operator.glyphs, List.isPrefixOf]
  have hoperator : Piece.scan signAllowed '@' rest = Piece.operator '@' rest := by
    simp [Piece.scan, hword, Numeral.starts, hdigit]
  rw [hoperator, Piece.operator, hscan]
  exact ⟨_, rfl⟩

/-- An invalid character is a fault, behind which reading goes on. -/
theorem steps_behind_invalid (front rest : String) : ∃ f,
    (behind front ("@" ++ rest)).steps = .error f :: (behind (front ++ "@") rest).steps := by
  have hnext : ∃ f, (behind front ("@" ++ rest)).next = (.fault f, behind (front ++ "@") rest) := by
    have htrivia : splitTrivia (behind front ("@" ++ rest)).rest = ([], '@' :: rest.toList) := by
      simp [behind, pass, splitTrivia, isBlank]
    obtain ⟨message, hscan⟩ := scan_invalid
      ((behind front ("@" ++ rest)).sign.permits (not (List.isEmpty []))) rest.toList
    rw [next_eq, htrivia]
    dsimp only
    rw [hscan]
    refine ⟨_, Prod.ext rfl ?_⟩
    simp [take, Piece.fault, behind, pass, ofString, byteSize_append]
  obtain ⟨f, hf⟩ := hnext
  exact ⟨f, steps_of_fault hf⟩

end Lexer

/-- Behind steps that do not end their line, the line goes on. -/
theorem afterLine_append {K : List Step} (h : ∀ t, .ok t ∈ K → t.kind.isNewline = false)
    (L : List Step) : afterLine (K ++ L) = afterLine L := by
  induction K with
  | nil => rfl
  | cons step K ih =>
    have hK := ih fun t ht => h t (List.mem_cons_of_mem _ ht)
    cases step with
    | error f => exact hK
    | ok t =>
      rw [List.cons_append, afterLine, h t List.mem_cons_self]
      exact hK

/-! Texts that part -/

/-- Two texts go on alike up to a newline, behind which one goes on with `X` and the other with
`Y`. -/
inductive Forking (A : Likeness) (X Y : List Step) : List Step → List Step → Prop
  | newline {t u : Token} : A.Tokens t u → t.kind.isNewline = true →
      Forking A X Y (.ok t :: X) (.ok u :: Y)
  | step {step step' : Step} {L M : List Step} : StepLike A step step' → Forking A X Y L M →
      Forking A X Y (step :: L) (step' :: M)

theorem forking_append {A : Likeness} [A.Reflexive] (L : List Step) {t u : Token}
    (h : A.Tokens t u) (ht : t.kind.isNewline = true) (X Y : List Step) :
    Forking A X Y (L ++ .ok t :: X) (L ++ .ok u :: Y) := by
  induction L with
  | nil => exact .newline h ht
  | cons step L ih => exact .step (.refl step) ih

/-- Two texts part here: one goes on with `X` and the other with `Y`. -/
def Forked (X Y L M : List Step) : Prop := L = X ∧ M = Y

/-- Where lines begin, two texts part or go on alike for a while. -/
def Fork (A : Likeness) (X Y L M : List Step) : Prop := Forking A X Y L M ∨ Forked X Y L M

/-- Texts that part, and not at a fault in the second of them. -/
theorem textual_fork {A : Likeness} {X Y : List Step} (hY : ∀ f L, Y ≠ .error f :: L) :
    Textual A (Fork A X Y) (Forked X Y) where
  fault h := by
    obtain h | ⟨-, h⟩ := h
    · cases h with
      | step _ h => exact .inl h
    · exact absurd h.symm (hY _ _)
  cases h := by
    obtain h | h := h
    · left
      induction h with
      | newline htu ht => exact .newline htu ht (.inr ⟨rfl, rfl⟩)
      | @step step step' L M hstep h ih =>
        cases hstep with
        | fault hfg => exact .fault hfg ih
        | @token t u htu =>
          cases ht : t.kind.isNewline with
          | true => exact .newline htu ht (.inl h)
          | false => exact .token htu ht ih
    · exact .inr h

end PirFrontend
