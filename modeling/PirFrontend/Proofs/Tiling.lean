import PirFrontend.Proofs.Displacement

/-!
The steps of a text tile it. Their spans follow one another and hold the text that was read; what is
left between them is blanks, comments and the colons of labels. Each newline is a token of its own.
-/
namespace PirFrontend

/-! What lies between steps -/

/-- A comment with the text behind it: it ends with its line. -/
def IsComment (comment behind : List Char) : Prop :=
  ∃ inside, comment = '#' :: inside ∧ '\n' ∉ inside ∧ (behind = [] ∨ behind.head? = some '\n')

/-- Blanks, and maybe a comment behind them, with the text behind all that. -/
def IsTrivia (trivia behind : List Char) : Prop :=
  ∃ blanks comment, trivia = blanks ++ comment ∧ (∀ c ∈ blanks, isBlank c = true) ∧
    (comment = [] ∨ IsComment comment behind)

/-- The colon that is passed over behind a token. Only labels have one. -/
def TokenKind.colon : TokenKind → List Char
  | .label => [':']
  | _ => []

/-- What a word is that is no label. -/
def TokenKind.ofName (text : List Char) : TokenKind :=
  match Keyword.ofSpelling? (String.ofList text) with
  | some k => .keyword k
  | none => .identifier

theorem TokenKind.colon_ofName (text : List Char) : (ofName text).colon = [] := by
  unfold ofName
  split <;> rfl

namespace Step

def span : Step → Span
  | .ok t => t.span
  | .error f => f.span

/-- Whether the step is a newline. -/
def isNewline : Step → Bool
  | .ok t => t.kind.isNewline
  | .error _ => false

/-- The colon behind the step. -/
def colon : Step → List Char
  | .ok t => t.kind.colon
  | .error _ => []

/-- The step holds `part`, which stands behind `before`. -/
structure Covers (s : Step) (before part : List Char) : Prop where
  nonempty : part ≠ []
  start : s.span.start = byteSize before
  stop : s.span.stop = byteSize (before ++ part)
  line : s.span.line = 1 + before.count '\n'
  lexeme : ∀ t, s = .ok t → t.lexeme = String.ofList part
  newline : s.isNewline = true → part = ['\n']
  inline : s.isNewline = false → '\n' ∉ part

end Step

/-- The text from one offset to another is a colon, if one is due there, and blanks and comments. -/
def GapAt (text : List Char) (start stop : Nat) (colon : List Char) : Prop :=
  ∃ before trivia after, text = before ++ (colon ++ trivia) ++ after ∧ start = byteSize before ∧
    stop = byteSize (before ++ (colon ++ trivia)) ∧ IsTrivia trivia after

/-- From an offset on there are only gaps between steps, and behind the last one. -/
def Gapped (text : List Char) : Nat → List Char → List Step → Prop
  | start, colon, [] => GapAt text start (byteSize text) colon
  | start, colon, s :: steps =>
    GapAt text start s.span.start colon ∧ Gapped text s.span.stop s.colon steps

/-- Where the newlines of a text are, if it begins at an offset. -/
def newlineOffsets : Nat → List Char → List Nat
  | _, [] => []
  | offset, c :: cs =>
    if c = '\n' then offset :: newlineOffsets (offset + c.utf8Size) cs
    else newlineOffsets (offset + c.utf8Size) cs

/-- The steps tile the text. -/
structure Tiled (text : List Char) (steps : List Step) : Prop where
  covered : ∀ s ∈ steps, ∃ before part after, text = before ++ part ++ after ∧ s.Covers before part
  ordered : steps.Pairwise fun s t => s.span.stop ≤ t.span.start
  gaps : Gapped text 0 [] steps
  newlines : (steps.filter Step.isNewline).map (·.span.start) = newlineOffsets 0 text

theorem newlineOffsets_append (front u v : List Char) :
    newlineOffsets (byteSize front) (u ++ v) =
      newlineOffsets (byteSize front) u ++ newlineOffsets (byteSize (front ++ u)) v := by
  induction u generalizing front with
  | nil => rw [List.append_nil]; rfl
  | cons c u ih =>
    have hsize : byteSize front + c.utf8Size = byteSize (front ++ [c]) := by
      rw [byteSize_append]; rfl
    have hu := ih (front ++ [c])
    rw [List.append_assoc, List.singleton_append] at hu
    simp only [List.cons_append, newlineOffsets, hsize, hu]
    split <;> rfl

theorem newlineOffsets_inline {u : List Char} (h : '\n' ∉ u) (offset : Nat) :
    newlineOffsets offset u = [] := by
  induction u generalizing offset with
  | nil => rfl
  | cons c u ih =>
    have hc : c ≠ '\n' := fun hc => h (hc ▸ List.mem_cons_self)
    rw [newlineOffsets, if_neg hc]
    exact ih (fun hu => h (List.mem_cons_of_mem c hu)) _

theorem IsTrivia.inline {trivia behind : List Char} (h : IsTrivia trivia behind) :
    '\n' ∉ trivia := by
  obtain ⟨blanks, comment, rfl, hblanks, hcomment⟩ := h
  intro hmem
  obtain hmem | hmem := List.mem_append.1 hmem
  · exact absurd (hblanks _ hmem) (by decide)
  · obtain rfl | ⟨inside, rfl, hinside, -⟩ := hcomment
    · cases hmem
    · obtain h | h := List.mem_cons.1 hmem
      · exact absurd h (by decide)
      · exact hinside h

theorem TokenKind.colon_inline (kind : TokenKind) : '\n' ∉ kind.colon := by
  cases kind <;> simp [colon]

theorem Step.colon_inline (s : Step) : '\n' ∉ s.colon := by
  cases s with
  | error f => nofun
  | ok t => exact t.kind.colon_inline

/-! Tiles one after the other -/

/-- The steps tile the text `rest` behind `front`, one after the other. -/
inductive Tiling : List Char → List Char → List Step → Prop
  | done {front trivia : List Char} : IsTrivia trivia [] → Tiling front trivia []
  | step {front trivia part rest : List Char} {s : Step} {steps : List Step} :
      IsTrivia trivia (part ++ s.colon ++ rest) → s.Covers (front ++ trivia) part →
      Tiling (front ++ trivia ++ part ++ s.colon) rest steps →
      Tiling front (trivia ++ part ++ s.colon ++ rest) (s :: steps)

namespace Tiling

variable {front rest : List Char} {steps : List Step}

theorem covered (h : Tiling front rest steps) {s : Step} (hs : s ∈ steps) :
    ∃ before part after, front ++ rest = before ++ part ++ after ∧ s.Covers before part := by
  induction h with
  | done => cases hs
  | @step front trivia part rest u steps _ hcovers _ ih =>
    obtain rfl | hs := List.mem_cons.1 hs
    · exact ⟨front ++ trivia, part, s.colon ++ rest, by simp only [List.append_assoc], hcovers⟩
    · obtain ⟨before, part', after, heq, hcovers'⟩ := ih hs
      refine ⟨before, part', after, ?_, hcovers'⟩
      rw [← heq]
      simp only [List.append_assoc]

/-- Steps behind a text do not begin in it. -/
theorem start_le (h : Tiling front rest steps) {s : Step} (hs : s ∈ steps) :
    byteSize front ≤ s.span.start := by
  induction h with
  | done => cases hs
  | @step front trivia part rest u steps _ hcovers _ ih =>
    obtain rfl | hs := List.mem_cons.1 hs
    · rw [hcovers.start, byteSize_append]
      omega
    · have hle := ih hs
      simp only [byteSize_append] at hle
      omega

theorem ordered (h : Tiling front rest steps) :
    steps.Pairwise fun s t => s.span.stop ≤ t.span.start := by
  induction h with
  | done => exact .nil
  | @step front trivia part rest u steps _ hcovers htail ih =>
    refine .cons (fun t ht => ?_) ih
    have hle := htail.start_le ht
    rw [byteSize_append] at hle
    rw [hcovers.stop]
    omega

theorem gaps (h : Tiling front rest steps) (before : List Char) {colon : List Char}
    (hfront : front = before ++ colon) : Gapped (front ++ rest) (byteSize before) colon steps := by
  induction h generalizing before colon with
  | @done front trivia htrivia =>
    subst hfront
    exact ⟨before, trivia, [], by simp, rfl, by simp, htrivia⟩
  | @step front trivia part rest s steps htrivia hcovers _ ih =>
    have hbehind := ih (front ++ trivia ++ part) rfl
    have htext : front ++ trivia ++ part ++ s.colon ++ rest =
        front ++ (trivia ++ part ++ s.colon ++ rest) := by
      simp only [List.append_assoc]
    rw [htext, ← hcovers.stop] at hbehind
    subst hfront
    refine ⟨⟨before, trivia, part ++ s.colon ++ rest, ?_, rfl, ?_, htrivia⟩, hbehind⟩
    · simp only [List.append_assoc]
    · rw [hcovers.start, List.append_assoc]

/-- A newline is a step of its own, and no other step or gap has one. -/
theorem newlines (h : Tiling front rest steps) :
    (steps.filter Step.isNewline).map (·.span.start) = newlineOffsets (byteSize front) rest := by
  induction h with
  | done htrivia =>
    rw [newlineOffsets_inline htrivia.inline]
    rfl
  | @step front trivia part rest s steps htrivia hcovers _ ih =>
    have hpart : newlineOffsets (byteSize (front ++ trivia)) part =
        if s.isNewline then [s.span.start] else [] := by
      rw [← hcovers.start]
      cases hs : s.isNewline with
      | true => rw [hcovers.newline hs]; rfl
      | false => exact newlineOffsets_inline (hcovers.inline hs) _
    have htext : newlineOffsets (byteSize front) (trivia ++ part ++ s.colon ++ rest) =
        (if s.isNewline then [s.span.start] else []) ++
          newlineOffsets (byteSize (front ++ trivia ++ part ++ s.colon)) rest := by
      rw [newlineOffsets_append, newlineOffsets_append, newlineOffsets_append]
      rw [newlineOffsets_inline htrivia.inline, newlineOffsets_inline s.colon_inline, hpart]
      simp only [List.append_assoc, List.nil_append, List.append_nil]
    rw [htext, ← ih, List.filter_cons]
    split <;> rfl

theorem tiled {text : List Char} (h : Tiling [] text steps) : Tiled text steps where
  covered _ hs := h.covered hs
  ordered := h.ordered
  gaps := h.gaps [] rfl
  newlines := h.newlines

end Tiling

/-! What is read in one go -/

theorem splitTrivia_isTrivia (cs : List Char) : IsTrivia (splitTrivia cs).1 (splitTrivia cs).2 := by
  have hblanks : ∀ c ∈ cs.takeWhile isBlank, isBlank c = true :=
    fun c hc => mem_takeWhile hc
  unfold splitTrivia
  dsimp only
  split
  next rest _ =>
    refine ⟨_, _, rfl, hblanks, .inr ⟨_, rfl, fun hmem => ?_, ?_⟩⟩
    · have hne := mem_takeWhile hmem
      simp at hne
    · cases hd : rest.dropWhile (· != '\n') with
      | nil => exact .inl rfl
      | cons c rest' =>
        have hc := List.head_dropWhile_not (p := (· != '\n')) (l := rest) (by simp [hd])
        right
        simpa [hd] using hc
  next => exact ⟨_, [], (List.append_nil _).symm, hblanks, .inl rfl⟩

namespace Piece

/-- Nothing is passed over behind what is no word. -/
theorem gap_scan_of_not_isWordStart {c : Char} (hc : isWordStart c = false) (signAllowed : Bool)
    (v : List Char) : (scan signAllowed c v).gap = [] := by
  have h := scanned signAllowed c v
  generalize scan signAllowed c v = p at h ⊢
  cases h with
  | newline => rfl
  | quoted =>
    unfold Quoted.scan
    split <;> rfl
  | register =>
    unfold register
    dsimp only
    split <;> rfl
  | flag =>
    unfold flag
    dsimp only
    split <;> rfl
  | directive _ hp =>
    obtain ⟨d, -, rfl⟩ := Option.map_eq_some_iff.1 hp
    rfl
  | word hstart =>
    rw [hc] at hstart
    cases hstart
  | number =>
    obtain ⟨kind, text, rest, hscan, -⟩ := Numeral.scan_eq_piece (c :: v)
    rw [hscan]
    exact Numeral.piece_gap kind text rest
  | operator =>
    unfold operator
    split <;> rfl

/-- A word is a label if a colon closes it, and a name otherwise. -/
theorem word_cases (cs : List Char) :
    (∃ rest, cs.dropWhile isWordChar = ':' :: rest ∧ closesLabel rest = true ∧
      word cs = ⟨.ok .label, cs.takeWhile isWordChar, [':'], rest⟩) ∨
    word cs = .token (.ofName (cs.takeWhile isWordChar)) (cs.takeWhile isWordChar)
      (cs.dropWhile isWordChar) := by
  unfold word
  dsimp only
  split
  next rest hr =>
    rw [hr]
    split
    next hcloses => exact .inl ⟨rest, rfl, hcloses, rfl⟩
    next => exact .inr rfl
  next => exact .inr rfl

/-- Only behind a label something is passed over, and it is the colon. -/
theorem gap_scan (signAllowed : Bool) (c : Char) (v : List Char) :
    (scan signAllowed c v).gap = match (scan signAllowed c v).reading with
      | .ok kind => kind.colon
      | .error _ => [] := by
  cases hc : isWordStart c with
  | false =>
    rw [gap_scan_of_not_isWordStart hc]
    cases hread : (scan signAllowed c v).reading with
    | error fault => rfl
    | ok kind =>
      cases kind <;> try rfl
      -- A label would be a word.
      rw [(scan_label hread).1] at hc
      cases hc
  | true =>
    rw [scan_of_isWordStart hc]
    obtain ⟨rest, -, -, hword⟩ | hword := word_cases (c :: v)
    · rw [hword]
      rfl
    · rw [hword]
      exact (TokenKind.colon_ofName _).symm

/-- Only a newline has a newline in its text. -/
theorem inline_text {signAllowed : Bool} {c : Char} (hc : c ≠ '\n') (v : List Char) :
    '\n' ∉ (scan signAllowed c v).text := by
  intro hmem
  have hwhole := whole_scan signAllowed c v
  have hv : '\n' ∈ v := by
    have hin : '\n' ∈ c :: v := by
      rw [← hwhole]
      exact List.mem_append_left _ (List.mem_append_left _ hmem)
    exact (List.mem_cons.1 hin).resolve_left (Ne.symm hc)
  -- What is read ends in front of the first newline.
  obtain ⟨u, b, rfl, hu⟩ := List.eq_append_cons_of_mem hv
  rw [scan_newline] at hmem
  have hin : '\n' ∈ c :: u := by
    rw [← whole_scan signAllowed c u]
    exact List.mem_append_left _ (List.mem_append_left _ hmem)
  obtain h | h := List.mem_cons.1 hin
  · exact hc h.symm
  · exact hu h

end Piece

/-- The token or the fault, unless the text is over. -/
def LexStep.step? : LexStep → Option Step
  | .token t => some (.ok t)
  | .fault f => some (.error f)
  | .done => none

namespace Lexer

variable {l l' : Lexer} {front : List Char}

/-- The place of the lexer is behind the text `front`. -/
structure Behind (front : List Char) (l : Lexer) : Prop where
  offset : l.offset = byteSize front
  line : l.line = 1 + front.count '\n'

theorem Behind.pass (h : l.Behind front) (text rest : List Char) :
    (l.pass text rest).Behind (front ++ text) where
  offset := by rw [byteSize_append, ← h.offset]; rfl
  line := by rw [List.count_append, ← Nat.add_assoc, ← h.line]; rfl

theorem Behind.take (h : l.Behind front) (q : Piece) :
    (l.take q).2.Behind (front ++ (q.text ++ q.gap)) := by
  have hpass := h.pass (q.text ++ q.gap) q.rest
  obtain ⟨⟨code, message⟩ | kind, text, gap, rest⟩ := q
  · exact ⟨hpass.offset, hpass.line⟩
  · exact ⟨hpass.offset, hpass.line⟩

theorem steps_step? (l : Lexer) : l.steps =
    match l.next.1.step? with
    | some s => s :: l.next.2.steps
    | none => [] := by
  rw [steps_eq]
  obtain ⟨t | f | _, l'⟩ := l.next <;> rfl

/-- What is taken at a place covers the text of the piece. -/
theorem take_covers (h : l.Behind front) {signAllowed : Bool} {c : Char} {v : List Char} {q : Piece}
    (hq : Piece.scan signAllowed c v = q) (hstop : l.offset + byteSize q.text ≤ maxOffset) :
    ∃ s : Step, (l.take q).1.step? = some s ∧ s.Covers front q.text ∧ s.colon = q.gap := by
  have hspan : Span.between l.source l.offset (l.offset + byteSize q.text) l.line =
      ⟨l.source, l.offset, l.offset + byteSize q.text, l.line⟩ :=
    Span.between_eq (Nat.le_add_right _ _) hstop
  -- A token and a fault cover the text alike; only a newline token has a newline in it.
  have hcovers (s : Step)
      (hs : s.span = Span.between l.source l.offset (l.offset + byteSize q.text) l.line)
      (hlexeme : ∀ t, s = .ok t → t.lexeme = String.ofList q.text)
      (hnewline : s.isNewline = true ↔ q.reading = .ok .newline) : s.Covers front q.text := by
    rw [hspan] at hs
    refine ⟨?_, ?_, ?_, ?_, hlexeme, fun hn => ?_, fun hn => ?_⟩
    · rw [← hq]
      exact Piece.text_scan_ne_nil signAllowed c v
    · rw [hs, h.offset]
    · rw [hs, h.offset, byteSize_append]
    · rw [hs, h.line]
    · have hread := hnewline.1 hn
      rw [← hq] at hread ⊢
      obtain rfl := Piece.scan_isNewline hread
      rfl
    · rw [← hq] at hnewline ⊢
      apply Piece.inline_text
      rintro rfl
      rw [hnewline.2 rfl] at hn
      cases hn
  have hgap := Piece.gap_scan signAllowed c v
  rw [hq] at hgap
  obtain ⟨⟨code, message⟩ | kind, text, gap, rest⟩ := q
  · exact ⟨_, rfl, hcovers _ rfl nofun ⟨nofun, nofun⟩, hgap.symm⟩
  · refine ⟨_, rfl, hcovers _ rfl ?_ ?_, hgap.symm⟩
    · rintro _ ⟨⟩
      rfl
    · cases kind <;> simp [Step.isNewline, TokenKind.isNewline]

/-- The steps of a text tile it, behind whatever stands in front. -/
theorem tiling_steps (h : l.Behind front) (hstop : l.stop ≤ maxOffset) :
    Tiling front l.rest l.steps := by
  -- The induction is on the text that is left, step by step.
  induction hn : l.rest.length using Nat.strongRecOn generalizing l front with
  | ind n ih =>
  have htrivia := splitTrivia_isTrivia l.rest
  have hsplit := splitTrivia_append l.rest
  have hstop' := l.stop_next
  have hlt := l.length_rest_next
  have hpass := h.pass (splitTrivia l.rest).1 (splitTrivia l.rest).2
  rw [steps_step?]
  rw [next_eq] at hstop' hlt ⊢
  generalize (splitTrivia l.rest).1 = trivia at *
  cases hr : (splitTrivia l.rest).2 with
  | nil =>
    rw [hr] at htrivia hsplit
    rw [← hsplit, List.append_nil]
    exact .done htrivia
  | cons c cs =>
    rw [hr] at htrivia hsplit hpass hstop' hlt
    dsimp only at hstop' hlt ⊢
    generalize hq : Piece.scan _ c cs = q at hstop' hlt ⊢
    have hwhole : q.text ++ q.gap ++ q.rest = c :: cs := hq ▸ Piece.whole_scan _ c cs
    have hbound : (l.pass trivia (c :: cs)).offset + byteSize q.text ≤ maxOffset := by
      refine Nat.le_trans ?_ hstop
      simp only [stop, pass, ← hsplit, ← hwhole, byteSize_append]
      omega
    obtain ⟨s, hs, hcovers, hcolon⟩ := take_covers hpass hq hbound
    have hbehind := hpass.take q
    rw [← hcolon] at hbehind hwhole
    have hne : ((l.pass trivia (c :: cs)).take q).1 ≠ .done := by
      intro hdone
      rw [hdone] at hs
      cases hs
    have htiling := ih _ (hn ▸ hlt hne) hbehind (hstop' ▸ hstop) rfl
    rw [rest_take, ← List.append_assoc] at htiling
    rw [hs, ← hsplit, ← hwhole, ← List.append_assoc, ← List.append_assoc]
    rw [← hwhole] at htrivia
    exact .step htrivia hcovers htiling

/-- The steps of a source text tile it. The spans of tokens and faults are not empty, follow one
another, and hold whole characters of the text, which are the texts of the tokens; between them
there are only blanks, comments and the colons of labels. A step is on the line that its span begins
on. The newlines of the text are tokens in the same order, and no other span has one. -/
theorem steps_tile (source : Nat) (text : String) (h : byteSize text.toList < maxOffset) :
    Tiled text.toList (ofString source text).steps := by
  have hbehind : (ofString source text).Behind [] := ⟨rfl, rfl⟩
  have hstop : (ofString source text).stop ≤ maxOffset := by
    show 0 + byteSize text.toList ≤ maxOffset
    omega
  exact (tiling_steps hbehind hstop).tiled

/-- A label, a comment, a string that is not closed, and characters of more than one byte. -/
theorem steps_tile_unclosed : byteSize "l: 'é # é\n\t@é# é\r\n".toList < maxOffset ∧
    Tiled "l: 'é # é\n\t@é# é\r\n".toList (ofString 0 "l: 'é # é\n\t@é# é\r\n").steps := by
  have hsize : byteSize "l: 'é # é\n\t@é# é\r\n".toList < maxOffset := by decide +kernel
  exact ⟨hsize, steps_tile 0 _ hsize⟩

end Lexer
end PirFrontend
