import PirFrontend.Proofs.Augmented
import PirFrontend.Proofs.BrokenLines
import PirFrontend.Proofs.Rendering
import PirFrontend.Proofs.Respacing

/-!
Augmented assignments in source text. The line `T op= E` of a body does what its long form
`T = T op E` does in its place.
-/
namespace PirFrontend

open PirFrontend.Parser (Place Spells Plain)

/-! Values -/

/-- The line is over: a newline is next, or the end of the text. -/
def LineOver (L : List Step) : Prop := L = [] ∨ ∃ nl M, L = .ok nl :: M ∧ nl.kind = .newline

/-- The tokens of a value: a literal, a register, a name, or an object with a key. The values of the
key have semicolons in front of all but the first of them. -/
inductive SpellsValue : List Token → Prop
  | literal {t : Token} : (Parser.literal? t.kind).isSome = true → SpellsValue [t]
  | register {t : Token} {cls : RegisterClass} {number : Nat} : t.kind = .register cls number →
      SpellsValue [t]
  | name {t : Token} : t.kind.isName = true → SpellsValue [t]
  | keyed {t left right : Token} {first : List Token} {more : List (Token × List Token)} :
      t.kind.isName = true ∨ (∃ number, t.kind = .register .pmc number) →
      left.kind = .operator .leftBracket → SpellsValue first →
      (∀ p ∈ more, p.1.kind = .operator .semicolon) → (∀ p ∈ more, SpellsValue p.2) →
      right.kind = .operator .rightBracket →
      SpellsValue (t :: left :: (first ++ more.flatMap (fun p => p.1 :: p.2) ++ [right]))

namespace SpellsValue

variable {ts : List Token}

theorem ne_nil (h : SpellsValue ts) : ts ≠ [] := by
  cases h <;> exact List.cons_ne_nil _ _

/-- Behind the first token of a value no parenthesis follows. -/
theorem second (h : SpellsValue ts) :
    ∀ t ∈ ts[1]?, t.kind.isOperator .leftParen = false := by
  have hsingle {t : Token} : ∀ u ∈ [t][1]?, u.kind.isOperator .leftParen = false := by
    intro u hu
    cases hu
  cases h with
  | keyed _ hleft _ _ _ _ =>
    rintro _ ⟨⟩
    rw [hleft]
    rfl
  | _ => exact hsingle

/-- A value is on one line. -/
theorem inline (h : SpellsValue ts) : ∀ t ∈ ts, t.kind.isNewline = false := by
  have hsingle {t : Token} (ht : t.kind.isNewline = false) :
      ∀ u ∈ [t], u.kind.isNewline = false := by
    intro u hu
    rwa [List.mem_singleton.1 hu]
  have hname {t : Token} (ht : t.kind.isName = true) : t.kind.isNewline = false := by
    cases hk : t.kind <;> first | rfl | (rw [hk] at ht; cases ht)
  induction h with
  | @literal t ht =>
    apply hsingle
    cases hk : t.kind <;> first | rfl | (rw [hk] at ht; cases ht)
  | register ht => exact hsingle (by rw [ht]; rfl)
  | name ht => exact hsingle (hname ht)
  | @keyed t left right first more ht hleft _ hsemicolon _ hright ihfirst ihmore =>
    intro u hu
    simp only [List.mem_cons, List.mem_append, List.mem_flatMap, List.not_mem_nil, or_false] at hu
    obtain rfl | rfl | (hu | ⟨p, hp, rfl | hu⟩) | rfl := hu
    · obtain hn | ⟨number, hr⟩ := ht
      · exact hname hn
      · rw [hr]
        rfl
    · rw [hleft]
      rfl
    · exact ihfirst u hu
    · rw [hsemicolon p hp]
      rfl
    · exact ihmore p hp u hu
    · rw [hright]
      rfl

/-- Behind an operator no value is taken for the arguments of a method. -/
theorem plain {t v : Token} {us : List Token} {L : List Step} (h : SpellsValue ts)
    (hkinds : us.map (·.kind) = ts.map (·.kind)) (hL : LineOver L) :
    Plain (.ok t :: .ok v :: (us.map .ok ++ L)) := by
  match us with
  | [] => exact absurd (List.map_eq_nil_iff.1 hkinds.symm) h.ne_nil
  | [x] =>
    obtain rfl | ⟨nl, M, rfl, hnl⟩ := hL
    · exact ⟨none, rfl, rfl⟩
    · exact ⟨some nl, rfl, by rw [Option.any_some, hnl]; rfl⟩
  | x :: y :: us =>
    have hsecond := congrArg (·[1]?) hkinds
    obtain ⟨z, hz, hkind⟩ : ∃ z, ts[1]? = some z ∧ z.kind = y.kind := by
      simpa using hsecond.symm
    exact ⟨some y, rfl, by rw [Option.any_some, ← hkind]; exact h.second z hz⟩

end SpellsValue

/-! The tokens of the two forms -/

/-- The line `T = T op E`. -/
def longForm (target : String) (o : Operator) (value : String) : String :=
  target ++ " = " ++ target ++ " " ++ o.spelling ++ " " ++ value

/-- The line `T op= E`. -/
def augmentedForm (target : String) (o : Operator) (value : String) : String :=
  target ++ " " ++ o.spelling ++ "= " ++ value

/-- An operator that also assigns is written with an equals sign behind the other one. -/
theorem spelling_augmented {o o' : Operator} {op : BinaryOp} (ho : BinaryOp.ofInfix? o = some op)
    (ho' : BinaryOp.ofAugmented? o' = some op) : o'.spelling = o.spelling ++ "=" := by
  cases o' <;> cases ho' <;> cases o <;> first | (cases ho; done) | rfl

namespace Lexer

variable {l m : Lexer} {u : Token} {T E : String} {ts : List Token} {o o' : Operator}
  {op : BinaryOp}

/-- A text without a newline among its tokens is one line. -/
theorem inline_of_steps (h : ∀ t, .ok t ∈ l.steps → t.kind.isNewline = false) : '\n' ∉ l.rest := by
  intro hmem
  obtain ⟨v, b, hv, -⟩ := List.eq_append_cons_of_mem hmem
  have hfollowed : l = followed { l with rest := v } b := by
    rw [followed, ← hv]
  have hsteps := steps_followed { l with rest := v } b
  rw [← hfollowed] at hsteps
  have hnewline := h _ (hsteps ▸ List.mem_append_right _ List.mem_cons_self)
  cases hnewline

/-- Behind an operator one blank makes no difference. -/
theorem steps_blank {cs : List Char} (hsign : l.sign = .allowed) (hrest : l.rest = ' ' :: cs) :
    l.steps = (l.pass [' '] cs).steps := by
  have htrivia : splitTrivia (' ' :: cs) = (' ' :: (splitTrivia cs).1, (splitTrivia cs).2) := by
    have hblank : isBlank ' ' = true := rfl
    unfold splitTrivia
    rw [List.takeWhile_cons_of_pos hblank, List.dropWhile_cons_of_pos hblank]
    dsimp only
    split <;> rfl
  have hnext : l.next = (l.pass [' '] cs).next := by
    have hpermits (blanks : Bool) : SignRule.allowed.permits blanks = true := rfl
    have hrest' : (l.pass [' '] cs).rest = cs := rfl
    have hsign' : (l.pass [' '] cs).sign = l.sign := rfl
    rw [next_eq, next_eq, hrest, htrivia, hrest', hsign', hsign]
    simp only [pass_pass, hpermits, List.singleton_append]
  rw [steps_eq, steps_eq, hnext]

theorem next_operator (o : Operator) {tail : List Char}
    (hrest : l.rest = ' ' :: (o.glyphs ++ tail)) (htail : Separated tail) :
    ∃ t l', l.next = (.token t, l') ∧ t.kind = .operator o ∧ l'.rest = tail ∧
      l'.sign = SignRule.after (.operator o) := by
  obtain ⟨c, w, hglyphs⟩ := List.exists_cons_of_ne_nil o.glyphs_ne_nil
  rw [hglyphs] at hrest
  obtain ⟨t, l', hnext, hkind, -, hrest', hsign⟩ := next_of_scan
    (show l.rest = [' '] ++ c :: (w ++ tail) from hrest) (by simp [isBlank])
    (Piece.scan_glyphs hglyphs htail) rfl
  exact ⟨t, l', hnext, hkind, hrest', hsign⟩

/-- A text that is one token is read as that token again. -/
theorem next_again (hT : (ofString 0 T).tokens = .ok [u]) (hwritten : u.written = T)
    (hsign : l.sign = .allowed) (blanks : List Char) {tail : List Char}
    (hblanks : ∀ b ∈ blanks, isBlank b = true) (hrest : l.rest = blanks ++ (T.toList ++ tail))
    (htail : Separated tail) :
    ∃ t l', l.next = (.token t, l') ∧ u.Like t ∧ l'.rest = tail := by
  obtain ⟨l', hnext⟩ := next_of_steps (steps_of_tokens hT)
  rw [← hwritten] at hrest
  obtain ⟨t, m', hnext', hreading, hrest', -⟩ :=
    next_written hnext hsign blanks hblanks (.inl hsign) hrest htail
  obtain ⟨hkind, hlexeme⟩ := Prod.mk.inj hreading
  exact ⟨t, m', hnext', ⟨hkind.symm, hlexeme.symm⟩, hrest'⟩

/-- Behind an operator and a blank a text is read as it is alone. -/
theorem steps_operand (hE : (ofString 0 E).tokens = .ok ts) (hsign : l.sign = .allowed)
    (hrest : l.rest = ' ' :: E.toList) :
    ∃ us : List Token, l.steps = us.map .ok ∧ us.map (·.kind) = ts.map (·.kind) := by
  have halike : List.Forall₂ (StepLike .built) (l.pass [' '] E.toList).steps (ofString 0 E).steps :=
    steps_alike rfl hsign trivial
  rw [← steps_blank hsign hrest, steps_of_tokens hE] at halike
  generalize l.steps = L at halike
  clear hE
  induction ts generalizing L with
  | nil =>
    cases halike
    exact ⟨[], rfl, rfl⟩
  | cons t ts ih =>
    obtain _ | ⟨⟨htok⟩, halike⟩ := halike
    obtain ⟨us, rfl, hkinds⟩ := ih _ halike
    exact ⟨_ :: us, rfl, congrArg₂ List.cons htok.like.kind hkinds⟩

/-- The lexer reads the tokens, and goes on as another one. -/
inductive Takes : Lexer → List Token → Lexer → Prop
  | nil (l : Lexer) : Takes l [] l
  | cons {l l' m : Lexer} {t : Token} {ts : List Token} : l.next = (.token t, l') →
      Takes l' ts m → Takes l (t :: ts) m

theorem Takes.steps (h : Takes l ts m) : l.steps = ts.map .ok ++ m.steps := by
  induction h with
  | nil => rfl
  | cons hnext _ ih =>
    rw [steps_of_token hnext, ih]
    rfl

/-- Within a line the lexer stays on it. -/
theorem Takes.line (h : Takes l ts m) (hl : '\n' ∉ l.rest) : m.line = l.line := by
  induction h with
  | nil => rfl
  | cons hnext _ ih =>
    have hline := next_inline hl
    rw [hnext] at hline
    exact (ih hline.2).trans hline.1

theorem Takes.head_line {t : Token} (h : Takes l (t :: ts) m) (hl : '\n' ∉ l.rest) :
    t.line = l.line := by
  cases h with
  | cons hnext _ =>
    have hhere := next_line hl
    rwa [hnext] at hhere

theorem takes_longForm (hT : (ofString 0 T).tokens = .ok [u]) (hwritten : u.written = T)
    (ho : BinaryOp.ofInfix? o = some op) (hsign : l.sign = .allowed)
    (hrest : l.rest = (longForm T o E).toList) :
    ∃ t w v x m, l.Takes [t, w, v, x] m ∧ u.Like t ∧ w.kind = .operator .assign ∧ u.Like v ∧
      x.kind = .operator o ∧ m.rest = ' ' :: E.toList ∧ m.sign = .allowed := by
  have htext : (longForm T o E).toList = T.toList ++ ' ' :: (Operator.assign.glyphs ++
      ' ' :: (T.toList ++ ' ' :: (o.glyphs ++ ' ' :: E.toList))) := by
    simp [longForm, Operator.spelling, Operator.glyphs]
  have hafter : SignRule.after (.operator o) = .allowed := by
    cases o <;> first | rfl | cases ho
  rw [htext] at hrest
  obtain ⟨t, l₁, hnext, ht, hrest₁⟩ :=
    next_again hT hwritten hsign [] (List.forall_mem_nil _) hrest (.cons rfl _)
  obtain ⟨w, l₂, hnext₁, hw, hrest₂, hsign₂⟩ := next_operator .assign hrest₁ (.cons rfl _)
  obtain ⟨v, l₃, hnext₂, hv, hrest₃⟩ :=
    next_again hT hwritten hsign₂ [' '] (by simp [isBlank]) hrest₂ (.cons rfl _)
  obtain ⟨x, m, hnext₃, hx, hrest₄, hsign₄⟩ := next_operator o hrest₃ (.cons rfl _)
  exact ⟨t, w, v, x, m, .cons hnext (.cons hnext₁ (.cons hnext₂ (.cons hnext₃ (.nil m)))), ht, hw,
    hv, hx, hrest₄, hsign₄.trans hafter⟩

theorem takes_augmentedForm (hT : (ofString 0 T).tokens = .ok [u]) (hwritten : u.written = T)
    (ho : BinaryOp.ofInfix? o = some op) (ho' : BinaryOp.ofAugmented? o' = some op)
    (hsign : l.sign = .allowed) (hrest : l.rest = (augmentedForm T o E).toList) :
    ∃ t v m, l.Takes [t, v] m ∧ u.Like t ∧ v.kind = .operator o' ∧
      m.rest = ' ' :: E.toList ∧ m.sign = .allowed := by
  have htext : (augmentedForm T o E).toList =
      T.toList ++ ' ' :: (o'.glyphs ++ ' ' :: E.toList) := by
    have hglyphs := congrArg String.toList (spelling_augmented ho ho')
    simp only [Operator.spelling, String.toList_append, String.toList_ofList] at hglyphs
    simp [augmentedForm, Operator.spelling, hglyphs]
  have hafter : SignRule.after (.operator o') = .allowed := by
    cases o' <;> first | rfl | cases ho'
  rw [htext] at hrest
  obtain ⟨t, l₁, hnext, ht, hrest₁⟩ :=
    next_again hT hwritten hsign [] (List.forall_mem_nil _) hrest (.cons rfl _)
  obtain ⟨v, m, hnext₁, hv, hrest₂, hsign₂⟩ := next_operator o' hrest₁ (.cons rfl _)
  exact ⟨t, v, m, .cons hnext (.cons hnext₁ (.nil m)), ht, hv, hrest₂, hsign₂.trans hafter⟩

/-! The rest of the text -/

/-- Behind a line another one is followed by the same steps, if the text goes on with a newline. -/
theorem steps_tail (front : String) {a b tail : String} (ha : '\n' ∉ a.toList)
    (hb : '\n' ∉ b.toList) (htail : tail = "" ∨ ∃ c, tail = "\n" ++ c) :
    ∃ M N, (behind front (a ++ tail)).steps = (behind front a).steps ++ M ∧
      (behind front (b ++ tail)).steps = (behind front b).steps ++ N ∧
      List.Forall₂ (StepLike .exact) M N ∧ LineOver M := by
  obtain rfl | ⟨c, rfl⟩ := htail
  · refine ⟨[], [], ?_, ?_, .nil, .inl rfl⟩ <;> rw [String.append_empty, List.append_nil]
  have hnewlines : (behind front a).newlineToken.line = (behind front b).newlineToken.line := by
    have hfirst : (behind front a).newlineToken.line = (behind front a).line :=
      newlineToken_line ha
    have hsecond : (behind front b).newlineToken.line = (behind front b).line :=
      newlineToken_line hb
    exact hfirst.trans hsecond.symm
  have hline : (behind (front ++ a ++ "\n") c).line = (behind (front ++ b ++ "\n") c).line := by
    simp [behind, pass, ofString, List.count_append, List.count_eq_zero.2 ha,
      List.count_eq_zero.2 hb]
  rw [← String.append_assoc, ← String.append_assoc]
  exact ⟨_, _, steps_behind front a c, steps_behind front b c,
    .cons (.token ⟨⟨rfl, rfl⟩, hnewlines⟩) (steps_alike rfl rfl hline), .inr ⟨_, _, rfl, rfl⟩⟩

end Lexer

/-! The line in its text -/

/-- The target and the operand of an augmented assignment, as they are written. -/
structure Operands (T E : String) (u : Token) (ts : List Token) : Prop where
  target : (Lexer.ofString 0 T).tokens = .ok [u]
  lexeme : u.lexeme = T
  kind : (∃ cls number, u.kind = .register cls number) ∨ u.kind = .identifier
  value : (Lexer.ofString 0 E).tokens = .ok ts
  spells : SpellsValue ts

namespace Operands

variable {a tail T E : String} {u : Token} {ts : List Token} {o o' : Operator} {op : BinaryOp}

theorem written (h : Operands T E u ts) : u.written = T := by
  rw [Token.written, h.lexeme]
  obtain ⟨cls, number, hu⟩ | hu := h.kind <;> rw [hu] <;> exact String.append_empty

theorem inline (h : Operands T E u ts) : '\n' ∉ T.toList ∧ '\n' ∉ E.toList := by
  constructor
  · apply Lexer.inline_of_steps (l := .ofString 0 T)
    rw [steps_of_tokens h.target]
    intro t ht
    obtain rfl : t = u := by simpa using ht
    obtain ⟨cls, number, hk⟩ | hk := h.kind <;> rw [hk] <;> rfl
  · apply Lexer.inline_of_steps (l := .ofString 0 E)
    rw [steps_of_tokens h.value]
    intro t ht
    exact h.spells.inline t (by simpa using ht)

theorem inline_forms (h : Operands T E u ts) (o : Operator) :
    '\n' ∉ (longForm T o E).toList ∧ '\n' ∉ (augmentedForm T o E).toList := by
  obtain ⟨hT, hE⟩ := h.inline
  have ho : '\n' ∉ o.glyphs := o.lineEnd_notMem_glyphs rfl
  simp [longForm, augmentedForm, Operator.spelling, hT, hE, ho]

/-- The steps of a text where it goes on with one form or with the other. -/
theorem forms (h : Operands T E u ts) (ho : BinaryOp.ofInfix? o = some op)
    (ho' : BinaryOp.ofAugmented? o' = some op) (htail : tail = "" ∨ ∃ c, tail = "\n" ++ c) :
    Parser.Forms u op (Lexer.behind (a ++ "\n") (longForm T o E ++ tail)).steps
      (Lexer.behind (a ++ "\n") (augmentedForm T o E ++ tail)).steps := by
  obtain ⟨hlong, hshort⟩ := h.inline_forms o
  obtain ⟨M, N, hM, hN, hMN, hover⟩ := Lexer.steps_tail (a ++ "\n") hlong hshort htail
  obtain ⟨t, w, v, x, m, htakes, ht, hw, hv, hx, hrest, hsign⟩ :=
    Lexer.takes_longForm (l := .behind (a ++ "\n") (longForm T o E)) h.target h.written ho rfl rfl
  obtain ⟨t', x', m', htakes', ht', hx', hrest', hsign'⟩ := Lexer.takes_augmentedForm
    (l := .behind (a ++ "\n") (augmentedForm T o E)) h.target h.written ho ho' rfl rfl
  have hsteps := htakes.steps
  have hsteps' := htakes'.steps
  -- Both lines begin on one line of the text, and so do their operands.
  have hline : t.line = t'.line :=
    (htakes.head_line hlong).trans (htakes'.head_line hshort).symm
  have halike : List.Forall₂ (StepLike .exact) m.steps m'.steps :=
    Lexer.steps_alike (hrest.trans hrest'.symm) (hsign.trans hsign'.symm)
      ((htakes.line hlong).trans (htakes'.line hshort).symm)
  have hplain : Plain (.ok v :: .ok x :: (m.steps ++ M)) := by
    obtain ⟨us, hus, hkinds⟩ := Lexer.steps_operand h.value hsign hrest
    rw [hus]
    exact h.spells.plain hkinds hover
  rw [hM, hN, hsteps, hsteps']
  exact .mk ht hw hv hx ho hplain ⟨⟨ht.kind.symm.trans ht'.kind, ht.lexeme.symm.trans ht'.lexeme⟩,
    hline⟩ hx' ho' (List.rel_append halike hMN)

/-- A line that begins with the target is no empty one, and no end of a subroutine. -/
theorem begins (h : Operands T E u ts) {v : Token} (huv : u.Like v) (L : List Step) :
    v.kind.isNewline = false ∧ ¬Outward (.ok v :: L) := by
  have hne : v.kind.isNewline = false ∧ ∀ d, v.kind ≠ .directive d := by
    rw [← huv.kind]
    obtain ⟨cls, number, hu⟩ | hu := h.kind <;> rw [hu] <;> exact ⟨rfl, nofun⟩
  exact ⟨hne.1, fun hout => (hout v L rfl).elim (hne.2 _) (hne.2 _)⟩

theorem spelled (h : Operands T E u ts) {b : Builder}
    (hdeclared : u.kind = .identifier → (b.lookup T).isSome = true) : ∃ t, Spells b u t := by
  obtain ⟨cls, number, hu⟩ | hu := h.kind
  · exact ⟨_, .inl ⟨cls, number, hu, rfl⟩⟩
  · obtain ⟨sym, hsym⟩ := Option.isSome_iff_exists.1 (hdeclared hu)
    exact ⟨_, .inr ⟨hu, sym, h.lexeme.symm ▸ hsym, rfl⟩⟩

end Operands

variable {a line tail T E : String} {u : Token} {ts : List Token} {o o' : Operator} {op : BinaryOp}
  {opts : BuildOptions} {s : Session}

/-- Where reading comes to one of the two forms in a body, it comes with the same builder to the
other one in its place. -/
theorem Operands.exchange (h : Operands T E u ts) (ho : BinaryOp.ofInfix? o = some op)
    (ho' : BinaryOp.ofAugmented? o' = some op) (htail : tail = "" ∨ ∃ c, tail = "\n" ++ c)
    (hline : line = longForm T o E ∨ line = augmentedForm T o E)
    (hcomes : Parser.Comes .top (Session.start (a ++ "\n" ++ (line ++ tail)) opts) .body s)
    (hhere : Blanks s.steps (Lexer.behind (a ++ "\n") (line ++ tail)).steps) :
    ∃ t t', Parser.Arrives (a ++ "\n") (longForm T o E ++ tail) opts .body s.builder t ∧
      Parser.Arrives (a ++ "\n") (augmentedForm T o E ++ tail) opts .body s.builder t' := by
  obtain ⟨v, w, X, Y, hX, hY, huv, huw⟩ := (h.forms (a := a) ho ho' htail).heads
  have hkind : v.kind = w.kind := huv.kind.symm.trans huw.kind
  obtain ⟨hv, hX'⟩ := h.begins huv X
  obtain ⟨hw, hY'⟩ := h.begins huw Y
  obtain rfl | rfl := hline
  · exact hcomes.exchange hhere hX hY hv hX' hkind
  · obtain ⟨t', t, ht', ht⟩ := hcomes.exchange hhere hY hX hw hY' hkind.symm
    exact ⟨t, t', ht, ht'⟩

/-- Where a line of a body is an augmented assignment to a register or a declared symbol, or the
long form of one, both forms are read there with the same builder and leave the same one, with the
same statements and problems, and the texts compile to the same. -/
theorem compile_augmentedForm (h : Operands T E u ts) (ho : BinaryOp.ofInfix? o = some op)
    (ho' : BinaryOp.ofAugmented? o' = some op) (htail : tail = "" ∨ ∃ c, tail = "\n" ++ c)
    (hline : line = longForm T o E ∨ line = augmentedForm T o E)
    (hcomes : Parser.Comes .top (Session.start (a ++ "\n" ++ (line ++ tail)) opts) .body s)
    (hhere : Blanks s.steps (Lexer.behind (a ++ "\n") (line ++ tail)).steps)
    (hdeclared : u.kind = .identifier → (s.builder.lookup T).isSome = true) :
    (∃ t t', Parser.Arrives (a ++ "\n") (longForm T o E ++ tail) opts .body s.builder t ∧
      Parser.Arrives (a ++ "\n") (augmentedForm T o E ++ tail) opts .body s.builder t' ∧
      ((Mended.attempt (Parser.line .body) (some .body)).run t).1 =
        ((Mended.attempt (Parser.line .body) (some .body)).run t').1 ∧
      ((Mended.attempt (Parser.line .body) (some .body)).run t).2.builder =
        ((Mended.attempt (Parser.line .body) (some .body)).run t').2.builder) ∧
    compile (a ++ "\n" ++ (longForm T o E ++ tail)) opts =
      compile (a ++ "\n" ++ (augmentedForm T o E ++ tail)) opts := by
  obtain ⟨t, t', ht, ht'⟩ := h.exchange ho ho' htail hline hcomes hhere
  obtain ⟨x, hspells⟩ := h.spelled hdeclared
  have hforms := h.forms (a := a) ho ho' htail
  rw [← ht.steps, ← ht'.steps] at hforms
  rw [← ht.builder] at hspells
  obtain ⟨hanswer, hbuilder, hend⟩ := Mirror.everywhere_line
    (hforms.attempted (ht'.builder.trans ht.builder.symm) hspells)
  refine ⟨⟨t, t', ht, ht', hanswer, hbuilder⟩, compile_of_endAlike ?_⟩
  unfold Parser.EndAlike at hend ⊢
  rw [ht.reaches.run_linesFrom, ht'.reaches.run_linesFrom]
  exact hend

/-- Every register is a target, and every int is an operand. -/
theorem operands_int (cls : RegisterClass) {number : Nat} (hnumber : number < Nat.pow 2 32)
    (n : Int64) : ∃ u ts, u.kind = .register cls number ∧
      Operands (Storage.register (.ofRegisterClass cls) number).render (ConstantValue.int n).render
        u ts := by
  have hregister := toList_render_register cls number
  have hint : (Lexer.ofString 0 (ConstantValue.int n).render).rest =
      [] ++ (ConstantValue.int n).render.toList ++ [] := (List.append_nil _).symm
  generalize (Storage.register (.ofRegisterClass cls) number).render = T at *
  have htarget : (Lexer.ofString 0 T).rest =
      [] ++ '$' :: cls.letter :: Text.digits 10 number ++ [] :=
    hregister.trans (List.append_nil _).symm
  obtain ⟨u, hu, hkind, hlexeme⟩ :=
    (Lexer.reads_register cls hnumber htarget (List.forall_mem_nil _) .nil).alone
  obtain ⟨v, hv, hvkind, -⟩ := (Lexer.reads_int rfl hint (List.forall_mem_nil _) .nil).alone
  rw [← hregister, String.ofList_toList] at hlexeme
  exact ⟨u, [v], hkind, hu, hlexeme, .inl ⟨cls, number, hkind⟩, hv, .literal (by rw [hvkind]; rfl)⟩

/-- A difference in which the second operand has a minus sign of its own. -/
theorem compile_augmentedForm_minus : ∃ (u : Token) (ts : List Token) (s t t' : Session),
    Operands "$I0" "-1" u ts ∧ longForm "$I0" .minus "-1" = "$I0 = $I0 - -1" ∧
    augmentedForm "$I0" .minus "-1" = "$I0 -= -1" ∧
    Parser.Arrives (".sub main" ++ "\n") (longForm "$I0" .minus "-1" ++ ("\n" ++ ".end\n"))
      .standard .body s.builder t ∧
    Parser.Arrives (".sub main" ++ "\n") (augmentedForm "$I0" .minus "-1" ++ ("\n" ++ ".end\n"))
      .standard .body s.builder t' ∧
    ((Mended.attempt (Parser.line .body) (some .body)).run t).2.builder =
      ((Mended.attempt (Parser.line .body) (some .body)).run t').2.builder ∧
    compile (".sub main" ++ "\n" ++ (longForm "$I0" .minus "-1" ++ ("\n" ++ ".end\n"))) .standard =
      compile (".sub main" ++ "\n" ++ (augmentedForm "$I0" .minus "-1" ++ ("\n" ++ ".end\n")))
        .standard := by
  have hT : (Storage.register (.ofRegisterClass .int) 0).render = "$I0" := by decide +kernel
  have hE : (ConstantValue.int (-1)).render = "-1" := by decide +kernel
  have ho : BinaryOp.ofInfix? .minus = some .sub := rfl
  have ho' : BinaryOp.ofAugmented? .minusAssign = some .sub := rfl
  have hscan : (Lexer.ofString 0 (".sub main" ++ "\n" ++ longForm "$I0" .minus "-1" ++ "\n" ++
      ".end\n")).tokens.isOk = true := by decide +kernel
  have hopens : opensBody (".sub main" ++ "\n" ++ longForm "$I0" .minus "-1" ++ "\n" ++ ".end\n")
      (fun _ => true) = true := by decide +kernel
  have htail : longForm "$I0" .minus "-1" ++ "\n" ++ ".end\n" =
      longForm "$I0" .minus "-1" ++ ("\n" ++ ".end\n") := String.append_assoc
  have hsource : ".sub main" ++ "\n" ++ longForm "$I0" .minus "-1" ++ "\n" ++ ".end\n" =
      ".sub main" ++ "\n" ++ (longForm "$I0" .minus "-1" ++ ("\n" ++ ".end\n")) := by
    simp only [String.append_assoc]
  obtain ⟨us, hus⟩ := exists_of_isOk hscan
  obtain ⟨s, hcomes, hs, -⟩ :=
    exists_of_opensBody (by decide +kernel) hus (by decide +kernel) hopens
  rw [htail] at hs
  rw [hsource] at hcomes
  have hnumber : 0 < Nat.pow 2 32 := by decide
  obtain ⟨u, ts, hkind, hoperands⟩ := operands_int .int hnumber (-1)
  rw [hT, hE] at hoperands
  have hregister : u.kind ≠ .identifier := by
    rw [hkind]
    exact TokenKind.noConfusion
  obtain ⟨⟨t, t', ht, ht', -, hb⟩, hcompile⟩ := compile_augmentedForm hoperands ho ho'
    (.inr ⟨".end\n", rfl⟩) (.inl rfl) hcomes (hs ▸ .refl _) fun h => absurd h hregister
  exact ⟨u, ts, s, t, t', hoperands, by decide +kernel, by decide +kernel, ht, ht', hb, hcompile⟩

end PirFrontend
