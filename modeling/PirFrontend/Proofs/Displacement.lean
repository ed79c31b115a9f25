import PirFrontend.Proofs.Joins

/-!
A text that stands further on in a source is read as it is alone: its steps are the same, and their
places move with it. As no step reaches across a newline, each line of a source is read for itself.
-/
namespace PirFrontend

/-! Places further on -/

/-- The span `bytes` further on and `lines` further down. -/
def Span.moved (bytes lines : Nat) (s : Span) : Span :=
  ⟨s.source, s.start + bytes, s.stop + bytes, s.line + lines⟩

/-- Offsets that a span can hold are not cut down. -/
theorem Span.between_eq {source a b line : Nat} (hab : a ≤ b) (hb : b ≤ maxOffset) :
    between source a b line = ⟨source, a, b, line⟩ := by
  have ha : a ≤ maxOffset := Nat.le_trans hab hb
  simp only [between, Nat.min_eq_left hb, Nat.min_eq_left ha, Nat.min_eq_left hab,
    Nat.max_eq_right hab]

def Token.moved (bytes lines : Nat) (t : Token) : Token :=
  { t with span := t.span.moved bytes lines }

def LexFault.moved (bytes lines : Nat) (f : LexFault) : LexFault :=
  { f with span := f.span.moved bytes lines }

/-- The step at a place further on. -/
def Step.moved (bytes lines : Nat) : Step → Step
  | .ok t => .ok (t.moved bytes lines)
  | .error f => .error (f.moved bytes lines)

def LexStep.moved (bytes lines : Nat) : LexStep → LexStep
  | .token t => .token (t.moved bytes lines)
  | .fault f => .fault (f.moved bytes lines)
  | .done => .done

namespace Lexer

/-- The lexer of the same text at a place further on. -/
def moved (bytes lines : Nat) (l : Lexer) : Lexer :=
  { l with offset := l.offset + bytes, line := l.line + lines }

variable {l : Lexer} {bytes lines : Nat}

@[simp]
theorem moved_rest : (l.moved bytes lines).rest = l.rest := rfl

@[simp]
theorem moved_sign : (l.moved bytes lines).sign = l.sign := rfl

theorem pass_moved (l : Lexer) (bytes lines : Nat) (text rest : List Char) :
    (l.moved bytes lines).pass text rest = (l.pass text rest).moved bytes lines := by
  simp only [moved, pass, Lexer.mk.injEq, true_and, and_true]
  omega

theorem take_moved {q : Piece} (h : l.offset + byteSize q.text + bytes ≤ maxOffset) :
    (l.moved bytes lines).take q =
      ((l.take q).1.moved bytes lines, (l.take q).2.moved bytes lines) := by
  have hspan : Span.between l.source (l.offset + bytes)
      (l.offset + bytes + byteSize q.text) (l.line + lines) =
      (Span.between l.source l.offset (l.offset + byteSize q.text) l.line).moved bytes lines := by
    rw [Span.between_eq (by omega) (by omega), Span.between_eq (by omega) (by omega)]
    simp only [Span.moved, Span.mk.injEq, true_and, and_true]
    omega
  have hbehind := l.pass_moved bytes lines (q.text ++ q.gap) q.rest
  obtain ⟨⟨code, message⟩ | kind, text, gap, rest⟩ := q
  · exact Prod.ext (congrArg (fun s => LexStep.fault ⟨code, message, s⟩) hspan)
      (congrArg (fun m : Lexer => { m with sign := .allowed }) hbehind)
  · exact Prod.ext (congrArg (fun s => LexStep.token ⟨kind, String.ofList text, s⟩) hspan)
      (congrArg (fun m : Lexer => { m with sign := SignRule.after kind }) hbehind)

/-- Where the text ends, at most. It is not the size of the source if the text ends before it. -/
def stop (l : Lexer) : Nat := l.offset + byteSize l.rest

/-- A step leaves the end of the text where it is. -/
theorem stop_next (l : Lexer) : l.next.2.stop = l.stop := by
  obtain ⟨u, sign, hrest, hnext⟩ := l.next_passes
  have hsize : byteSize l.rest = byteSize u + byteSize l.next.2.rest := by
    rw [← byteSize_append, ← hrest]
  rw [stop, stop, hsize, hnext]
  exact Nat.add_assoc _ _ _

theorem next_moved (h : l.stop + bytes ≤ maxOffset) : (l.moved bytes lines).next =
    (l.next.1.moved bytes lines, l.next.2.moved bytes lines) := by
  have htrivia := congrArg byteSize (splitTrivia_append l.rest)
  rw [byteSize_append] at htrivia
  rw [next_eq, next_eq, pass_moved, moved_rest, moved_sign]
  cases hr : (splitTrivia l.rest).2 with
  | nil => rfl
  | cons c cs =>
    dsimp only
    generalize hq : Piece.scan (l.sign.permits !(splitTrivia l.rest).1.isEmpty) c cs = q
    -- What is taken is part of the text that is left.
    have hwhole : q.whole = c :: cs := hq ▸ Piece.whole_scan _ c cs
    have hsize := congrArg byteSize hwhole
    rw [Piece.whole, byteSize_append, byteSize_append] at hsize
    rw [hr] at htrivia
    apply take_moved
    simp only [stop] at h
    simp only [pass]
    omega

/-- A text is read alike wherever it stands, and the places move with it. -/
theorem steps_moved (h : l.stop + bytes ≤ maxOffset) :
    (l.moved bytes lines).steps = l.steps.map (Step.moved bytes lines) := by
  -- The induction is on the text that is left, step by step.
  induction hn : l.rest.length using Nat.strongRecOn generalizing l with
  | ind n ih =>
  have hmoved : (l.moved bytes lines).next =
      (l.next.1.moved bytes lines, l.next.2.moved bytes lines) := next_moved h
  have hstop := l.stop_next
  have hlt := l.length_rest_next
  cases hl : l.next with
  | mk step l' =>
  rw [hl] at hmoved hstop hlt
  have hlater (hstep : step ≠ .done) :
      (l'.moved bytes lines).steps = l'.steps.map (Step.moved bytes lines) :=
    ih _ (hn ▸ hlt hstep) (hstop ▸ h) rfl
  cases step with
  | done => rw [steps_of_done hmoved, steps_of_done hl, List.map_nil]
  | token t => rw [steps_of_token hmoved, steps_of_token hl, hlater nofun, List.map_cons]; rfl
  | fault f => rw [steps_of_fault hmoved, steps_of_fault hl, hlater nofun, List.map_cons]; rfl

/-! Lines of a source -/

theorem followed_ofString (source : Nat) (a b : String) :
    (ofString source a).followed b.toList = ofString source (a ++ "\n" ++ b) := by
  simp [followed, ofString]

theorem past_ofString (source : Nat) (a b : String) : (ofString source a).past b.toList =
    (ofString source b).moved (byteSize a.toList + 1) (a.toList.count '\n' + 1) := by
  have hnewline : byteSize ['\n'] = 1 := by decide
  simp only [past, pass, ofString, moved, byteSize_append, List.count_append, hnewline,
    Lexer.mk.injEq, true_and, and_true, Nat.zero_add]
  rfl

/-- A source text is read line by line. What stands in front of a newline is read as if the source
ended with the newline, and what stands behind it as if the source began there; only the places of
the latter are further on, by the bytes and the lines in front. -/
theorem steps_behind_newline (source : Nat) (a b : String)
    (h : byteSize (a ++ "\n" ++ b).toList < maxOffset) :
    (ofString source (a ++ "\n" ++ b)).steps = (ofString source (a ++ "\n")).steps ++
      (ofString source b).steps.map
        (Step.moved (byteSize a.toList + 1) (a.toList.count '\n' + 1)) := by
  have hnil : (ofString source a).followed [] = ofString source (a ++ "\n") := by
    simpa using followed_ofString source a ""
  have hend : ((ofString source a).past []).steps = [] := steps_of_done rfl
  have hstop : (ofString source b).stop + (byteSize a.toList + 1) ≤ maxOffset := by
    have hnewline : byteSize ['\n'] = 1 := by decide
    simp only [String.toList_append, byteSize_append] at h
    simp only [stop, ofString]
    have : "\n".toList = ['\n'] := by decide
    rw [this, hnewline] at h
    omega
  rw [← followed_ofString, steps_followed, past_ofString, steps_moved hstop, ← hnil, steps_followed,
    hend]
  simp

/-- A string that is not closed ends with its line, and so does a comment with a quote. -/
theorem steps_behind_newline_unclosed :
    byteSize ("$S0 = \"é" ++ "\n" ++ "-1 # \"").toList < maxOffset ∧
    (ofString 0 ("$S0 = \"é" ++ "\n" ++ "-1 # \"")).steps =
      (ofString 0 ("$S0 = \"é" ++ "\n")).steps ++
        (ofString 0 "-1 # \"").steps.map (Step.moved 10 1) := by
  have hsize : byteSize ("$S0 = \"é" ++ "\n" ++ "-1 # \"").toList < maxOffset := by
    decide +kernel
  have hbytes : byteSize "$S0 = \"é".toList = 9 := by decide +kernel
  have hlines : "$S0 = \"é".toList.count '\n' = 0 := by decide +kernel
  have h := steps_behind_newline 0 "$S0 = \"é" "-1 # \"" hsize
  rw [hbytes, hlines] at h
  exact ⟨hsize, h⟩

end Lexer
end PirFrontend
