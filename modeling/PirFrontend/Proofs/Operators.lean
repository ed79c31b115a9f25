import PirFrontend.Proofs.Newlines
import PirFrontend.Token.Lexer

/-!
Operators are read by maximal munch. In the table each operator is the first that begins its own
spelling. So none stands in front of a longer one that it begins, and the first operator that
begins a text is the longest. Reading it passes over its bytes; where no operator begins, reading
one passes over nothing.
-/
namespace PirFrontend

/-! The longest operator of a text -/

namespace Operator

variable {op o : Operator} {cs rest : List Char}

/-- The operator begins the text, and none with a longer spelling does. -/
structure IsLongest (op : Operator) (cs : List Char) : Prop where
  begins : op.glyphs <+: cs
  longest : ∀ o : Operator, o.glyphs <+: cs → o.glyphs.length ≤ op.glyphs.length

/-- An operator is the first in the table that begins its own spelling. -/
theorem find?_glyphs (op : Operator) :
    table.find? (fun o => o.glyphs.isPrefixOf op.glyphs) = some op := by
  cases op <;> rfl

theorem mem_table (op : Operator) : op ∈ table := List.mem_of_find?_eq_some op.find?_glyphs

theorem glyphs_injective (h : op.glyphs = o.glyphs) : op = o := by
  have hfind := op.find?_glyphs
  rw [h, o.find?_glyphs] at hfind
  exact (Option.some.inj hfind).symm

theorem IsLongest.unique (h : op.IsLongest cs) (h' : o.IsLongest cs) : op = o := by
  have hbegins := List.prefix_of_prefix_length_le h.begins h'.begins (h'.longest op h.begins)
  exact glyphs_injective (hbegins.eq_of_length_le (h.longest o h'.begins))

/-- The first operator that begins a text begins no longer one there. -/
theorem eq_of_find? (hfind : table.find? (fun p => p.glyphs.isPrefixOf cs) = some op)
    (ho : o.glyphs <+: cs) (hmore : op.glyphs <+: o.glyphs) : o = op := by
  obtain ⟨-, front, back, htable, hfront⟩ := List.find?_eq_some_iff_append.1 hfind
  -- What stands in front of `op` in the table does not begin the text, so not `o` either.
  have hfirst : table.find? (fun p => p.glyphs.isPrefixOf o.glyphs) = some op := by
    refine List.find?_eq_some_iff_append.2
      ⟨List.isPrefixOf_iff_prefix.2 hmore, front, back, htable, fun p hp => ?_⟩
    have hnot := hfront p hp
    rw [Bool.not_eq_true', ← Bool.not_eq_true, List.isPrefixOf_iff_prefix] at hnot ⊢
    exact fun h => hnot (h.trans ho)
  rw [o.find?_glyphs] at hfirst
  exact Option.some.inj hfirst

theorem isLongest_of_find? (hfind : table.find? (fun p => p.glyphs.isPrefixOf cs) = some op) :
    op.IsLongest cs := by
  have hop : op.glyphs <+: cs := by
    have hp := List.find?_some hfind
    exact List.isPrefixOf_iff_prefix.1 hp
  refine ⟨hop, fun o ho => ?_⟩
  -- Of two spellings that begin one text, one begins the other.
  obtain hmore | hless := List.prefix_or_prefix_of_prefix hop ho
  · exact Nat.le_of_eq (congrArg (·.glyphs.length) (eq_of_find? hfind ho hmore))
  · exact hless.length_le

theorem isSome_scan? (cs : List Char) :
    (scan? cs).isSome = true ↔ ∃ op : Operator, op.glyphs <+: cs := by
  simp [scan?, mem_table]

/-- The operator that is read is the longest one, and the text behind it is left. -/
theorem scan?_eq_some_iff :
    scan? cs = some (op, rest) ↔ op.IsLongest cs ∧ cs = op.glyphs ++ rest := by
  constructor
  · intro h
    obtain ⟨p, hfind, hp⟩ := Option.map_eq_some_iff.1 h
    cases hp
    exact ⟨isLongest_of_find? hfind, (scan?_split cs op _ h).symm⟩
  · rintro ⟨hlongest, rfl⟩
    have hsome := (isSome_scan? _).2 ⟨op, hlongest.begins⟩
    obtain ⟨o, hfind⟩ := Option.isSome_iff_exists.1 (Option.isSome_map.symm.trans hsome)
    rw [scan?, hfind, hlongest.unique (isLongest_of_find? hfind), Option.map_some, List.drop_left]

end Operator

/-! Reading an operator at a place in a text -/

namespace Lexer

variable {l : Lexer} {op : Operator} {c : Char} {cs rest : List Char}

/-- Passes over the operator at this place. Where there is none, the place stays the same. -/
def takeOperator (l : Lexer) : Option Operator × Lexer :=
  match Operator.scan? l.rest with
  | some (op, rest) => (some op, l.pass op.glyphs rest)
  | none => (none, l)

/-- What is answered when an operator is read at the place `l`, and the place `behind` that this
leads to. -/
structure ReadsOperator (l : Lexer) (answer : Option Operator) (behind : Lexer) : Prop where
  /-- There is an answer exactly where some operator begins the rest of the text. -/
  answered : answer.isSome = true ↔ ∃ op : Operator, op.glyphs <+: l.rest
  /-- It is the one with the longest spelling of those. -/
  longest : ∀ op, answer = some op ↔ op.IsLongest l.rest
  /-- The bytes of the spelling are passed over, and the line stays the same. -/
  passed : ∀ op ∈ answer, l.rest = op.glyphs ++ behind.rest ∧
    behind = { l with rest := behind.rest, offset := l.offset + byteSize op.glyphs }
  /-- Nothing is passed over where there is no answer. -/
  stayed : answer = none → behind = l
  /-- The lexer makes a token of the answer. Without one, the character at this place is invalid. -/
  taken : ∀ c cs, l.rest = c :: cs → l.take (Piece.operator c cs) =
    match answer with
    | some op =>
      (.token ⟨.operator op, op.spelling, .between l.source l.offset behind.offset l.line⟩,
        { behind with sign := .after (.operator op) })
    | none =>
      let shown := String.ofList (Text.escapeChar c)
      behind.take (.fault .invalidCharacter s!"invalid character '{shown}'" [c] cs)

/-- No operator has a newline. -/
theorem pass_glyphs (l : Lexer) (op : Operator) (rest : List Char) :
    l.pass op.glyphs rest = { l with rest, offset := l.offset + byteSize op.glyphs } := by
  have hcount : op.glyphs.count '\n' = 0 := List.count_eq_zero.2 (op.lineEnd_notMem_glyphs rfl)
  rw [pass, hcount, Nat.add_zero]

theorem take_operator (l : Lexer) (h : Operator.scan? (c :: cs) = some (op, rest)) :
    l.take (Piece.operator c cs) =
      let offset := l.offset + byteSize op.glyphs
      (.token ⟨.operator op, op.spelling, .between l.source l.offset offset l.line⟩,
        { l with rest, offset, sign := .after (.operator op) }) := by
  rw [Piece.operator, h]
  simp only [take, Piece.token, List.append_nil, pass_glyphs, Operator.spelling]

theorem readsOperator_some (h : Operator.scan? l.rest = some (op, rest)) :
    l.ReadsOperator (some op) { l with rest, offset := l.offset + byteSize op.glyphs } := by
  obtain ⟨hlongest, hsplit⟩ := Operator.scan?_eq_some_iff.1 h
  constructor
  case answered => exact iff_of_true rfl ⟨op, hlongest.begins⟩
  case longest =>
    intro o
    rw [Option.some.injEq]
    exact ⟨fun ho => ho ▸ hlongest, hlongest.unique⟩
  case passed =>
    intro o ho
    obtain rfl := Option.some.inj ho
    exact ⟨hsplit, rfl⟩
  case stayed => nofun
  case taken =>
    intro c cs hrest
    rw [hrest] at h
    exact l.take_operator h

theorem readsOperator_none (h : Operator.scan? l.rest = none) : l.ReadsOperator none l := by
  have hnone := Operator.isSome_scan? l.rest
  rw [h] at hnone
  constructor
  case answered => exact hnone
  case longest =>
    intro o
    refine ⟨nofun, fun ho => ?_⟩
    cases hnone.2 ⟨o, ho.begins⟩
  case passed => nofun
  case stayed => exact fun _ => rfl
  case taken =>
    intro c cs hrest
    rw [hrest] at h
    rw [Piece.operator, h]

/-- Operators are read by maximal munch, at every place of every text. -/
theorem takeOperator_longest (l : Lexer) :
    l.ReadsOperator l.takeOperator.1 l.takeOperator.2 := by
  cases h : Operator.scan? l.rest with
  | some found =>
    obtain ⟨op, rest⟩ := found
    have htake : l.takeOperator = (some op, l.pass op.glyphs rest) := by rw [takeOperator, h]
    rw [htake, pass_glyphs]
    exact readsOperator_some h
  | none =>
    rw [takeOperator, h]
    exact readsOperator_none h

example : (ofString 0 ">>>==").takeOperator.1 = some .shiftRightUnsignedAssign := by decide

end Lexer
end PirFrontend
