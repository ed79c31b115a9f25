import PirFrontend.Proofs.Quoting
import PirFrontend.Proofs.Yields

/-!
Operands as instructions show them. The text of an operand is read as that operand, and what is left
is the text behind it.
-/
namespace PirFrontend

namespace Expression

/-- Values with a text of their own: registers, `$P` registers under a key of such values, ints, and
strings of characters that are shown. -/
inductive IsValue : Expression → Prop
  | register {type : ValueType} {number : Nat} : type ≠ .unknown → number < Nat.pow 2 32 →
      IsValue (.target (.register type number))
  | keyed {number : Nat} {k : Key} : number < Nat.pow 2 32 → (∀ e ∈ k.entries, e.IsValue) →
      IsValue (.target { Target.register .pmc number with key := some k })
  | int (n : Int64) : IsValue (.int n)
  | string {s : String} : (∀ c ∈ s.toList, Text.isShown c = true) → IsValue (.string s)

/-- Operands with a text of their own: values, keys of values, and labels. -/
inductive IsOperand : Expression → Prop
  | value {e : Expression} : e.IsValue → IsOperand e
  | key {k : Key} : (∀ e ∈ k.entries, e.IsValue) → IsOperand (.key k)
  | label {name : String} : IsWord name → IsOperand (.label name)

end Expression

open PirFrontend.Parser (Unindexed nextEntry nextItem opArgument opArguments)

variable {l : Lexer} {tail : List Char}

/-- The tokens with which values begin end no line, and they are neither names nor operators. -/
structure TokenKind.BeginsValue (k : TokenKind) : Prop where
  name : k.isName = false
  newline : k.isNewline = false
  operator (op) : k ≠ .operator op

/-- In front of text that no token goes on with, the text of the value is read as the value. -/
def Expression.ReadBack (e : Expression) : Prop :=
  ∀ (l : Lexer) (blanks tail : List Char), l.rest = blanks ++ e.render.toList ++ tail →
    (∀ b ∈ blanks, isBlank b = true) → l.sign.permits (!blanks.isEmpty) = true → Separated tail →
    ∃ (t : Token) (L : List Step) (l' : Lexer), l.steps = .ok t :: L ∧ t.kind.BeginsValue ∧
      l'.rest = tail ∧ ∀ b, Unindexed l'.steps → Parser.value.Yields l.steps b e l'.steps b

theorem exists_registerClass {type : ValueType} (h : type ≠ .unknown) :
    ∃ cls, type = .ofRegisterClass cls := by
  cases type with
  | int => exact ⟨.int, rfl⟩
  | num => exact ⟨.num, rfl⟩
  | string => exact ⟨.string, rfl⟩
  | pmc => exact ⟨.pmc, rfl⟩
  | unknown => exact absurd rfl h

theorem toList_render_register (cls : RegisterClass) (number : Nat) :
    (Storage.register (.ofRegisterClass cls) number).render.toList =
      '$' :: cls.letter :: Text.digits 10 number := by
  cases cls <;> exact String.toList_ofList

theorem readBack_register {type : ValueType} {number : Nat} (htype : type ≠ .unknown)
    (hnumber : number < Nat.pow 2 32) :
    (Expression.target (.register type number)).ReadBack := by
  intro l blanks tail hrest hblanks _ htail
  obtain ⟨cls, rfl⟩ := exists_registerClass htype
  have hrender : (Expression.target (.register (.ofRegisterClass cls) number)).render.toList =
      '$' :: cls.letter :: Text.digits 10 number := by
    rw [← toList_render_register]
    rfl
  rw [hrender] at hrest
  obtain ⟨t, l', hsteps, hkind, -, hrest', -⟩ :=
    Lexer.reads_register cls hnumber hrest hblanks htail
  refine ⟨t, l'.steps, l', hsteps, hkind ▸ ⟨rfl, rfl, nofun⟩, hrest', fun b hL => ?_⟩
  rw [hsteps]
  exact Parser.value_register hkind hL

theorem readBack_int (n : Int64) : (Expression.int n).ReadBack := by
  intro l blanks tail hrest hblanks hsign htail
  obtain ⟨t, l', hsteps, hkind, -, hrest', -⟩ := Lexer.reads_int hsign hrest hblanks htail
  refine ⟨t, l'.steps, l', hsteps, hkind ▸ ⟨rfl, rfl, nofun⟩, hrest', fun b _ => ?_⟩
  rw [hsteps]
  exact Parser.value_literal (by rw [hkind]; rfl)

theorem readBack_string {s : String} (hs : ∀ c ∈ s.toList, Text.isShown c = true) :
    (Expression.string s).ReadBack := by
  intro l blanks tail hrest hblanks _ _
  obtain ⟨t, l', hsteps, hkind, -, hrest', -⟩ := Lexer.reads_string hs hrest hblanks
  refine ⟨t, l'.steps, l', hsteps, hkind ▸ ⟨rfl, rfl, nofun⟩, hrest', fun b _ => ?_⟩
  rw [hsteps]
  exact Parser.value_literal (by rw [hkind]; rfl)

/-! Keys -/

theorem unindexed_of_operator {u : Token} {op : Operator} (hu : u.kind = .operator op)
    (hop : op ≠ .leftBracket) (L : List Step) : Unindexed (.ok u :: L) := by
  refine ⟨u, L, rfl, ?_⟩
  rw [hu]
  exact beq_false_of_ne hop

theorem unindexed_of_newline {u : Token} (hu : u.kind = .newline) (L : List Step) :
    Unindexed (.ok u :: L) :=
  ⟨u, L, rfl, by rw [hu]; rfl⟩

theorem toList_renderMore (e : Expression) (more : List Expression) (tail : List Char) :
    (Key.renderMore (e :: more)).toList ++ tail =
      ';' :: (e.render.toList ++ ((Key.renderMore more).toList ++ tail)) := by
  simp [Key.renderMore]

theorem toList_render_key (first : Expression) (more : List Expression) (tail : List Char) :
    (Key.render ⟨first, more⟩).toList ++ tail =
      '[' :: (first.render.toList ++ ((Key.renderMore more).toList ++ ']' :: tail)) := by
  simp [Key.render]

/-- What follows a value in a key begins with a semicolon or with the bracket. -/
theorem separated_renderMore (more : List Expression) (tail : List Char) :
    Separated ((Key.renderMore more).toList ++ ']' :: tail) := by
  cases more with
  | nil => exact .cons rfl tail
  | cons e more =>
    rw [toList_renderMore]
    exact .cons rfl _

/-- The values behind the first one of a key, and the bracket. -/
theorem readBack_entries {more : List Expression} (h : ∀ e ∈ more, e.ReadBack)
    (hrest : l.rest = (Key.renderMore more).toList ++ ']' :: tail) (entries : List Expression) :
    Unindexed l.steps ∧ ∃ (u : Token) (l' : Lexer), u.kind = .operator .rightBracket ∧
      l'.rest = tail ∧ ∀ b, (Act.iterate (nextEntry Parser.value) entries).Yields l.steps b
        (entries ++ more) (.ok u :: l'.steps) b := by
  -- The induction is on the values that are left. The loop holds those that were read.
  induction more generalizing l entries with
  | nil =>
    obtain ⟨u, l', hsteps, hu, -, hrest', -⟩ :=
      Lexer.reads_mark .rightBracket (by decide) [] hrest nofun
    rw [hsteps, List.append_nil]
    refine ⟨unindexed_of_operator hu nofun _, u, l', hu, hrest', fun b => ?_⟩
    exact Parser.entries_stop (by rw [hu]; rfl) entries
  | cons e more ih =>
    rw [toList_renderMore] at hrest
    obtain ⟨t, l₁, hsteps, ht, -, hrest₁, hsign₁⟩ :=
      Lexer.reads_mark .semicolon (by decide) [] hrest nofun
    obtain ⟨-, -, l₂, -, -, hrest₂, hvalue⟩ := h e List.mem_cons_self l₁ [] _ hrest₁ nofun
      (by rw [hsign₁]; rfl) (separated_renderMore more tail)
    obtain ⟨hindexed, u, l', hu, hrest', hmore⟩ :=
      ih (fun d hd => h d (List.mem_cons_of_mem e hd)) hrest₂ (entries ++ [e])
    rw [hsteps]
    refine ⟨unindexed_of_operator ht nofun _, u, l', hu, hrest', fun b => ?_⟩
    have hall := hmore b
    rw [List.append_assoc] at hall
    exact Parser.entries_more (by rw [ht]; rfl) (hvalue b hindexed) hall

/-- A key is read from its text, whatever is behind its bracket. -/
theorem readBack_key {k : Key} (h : ∀ e ∈ k.entries, e.ReadBack) (blanks : List Char)
    (hrest : l.rest = blanks ++ (k.render.toList ++ tail))
    (hblanks : ∀ b ∈ blanks, isBlank b = true) :
    ∃ (t : Token) (L : List Step) (l' : Lexer), l.steps = .ok t :: L ∧
      t.kind = .operator .leftBracket ∧ l'.rest = tail ∧
      ∀ b, Parser.key.Yields l.steps b k l'.steps b := by
  obtain ⟨first, more⟩ := k
  rw [toList_render_key] at hrest
  obtain ⟨t, l₁, hsteps, ht, -, hrest₁, hsign₁⟩ :=
    Lexer.reads_mark .leftBracket (by decide) blanks hrest hblanks
  obtain ⟨-, -, l₂, -, -, hrest₂, hvalue⟩ := h first List.mem_cons_self l₁ [] _ hrest₁ nofun
    (by rw [hsign₁]; rfl) (separated_renderMore more tail)
  obtain ⟨hindexed, u, l', hu, hrest', hmore⟩ :=
    readBack_entries (fun d hd => h d (List.mem_cons_of_mem first hd)) hrest₂ []
  refine ⟨t, _, l', hsteps, ht, hrest', fun b => ?_⟩
  rw [hsteps]
  exact Parser.key_yields (by rw [ht]; rfl) (hvalue b hindexed) (hmore b) (by rw [hu]; rfl)

theorem toList_render_keyed (number : Nat) (k : Key) (tail : List Char) :
    (Expression.target { Target.register .pmc number with key := some k }).render.toList ++ tail =
      '$' :: 'P' :: Text.digits 10 number ++ (k.render.toList ++ tail) := by
  have hrender : (Expression.target { Target.register .pmc number with key := some k }).render =
      (Storage.register (.ofRegisterClass .pmc) number).render ++ k.render := rfl
  rw [hrender, String.toList_append, toList_render_register, List.append_assoc]
  rfl

theorem readBack_keyed {number : Nat} {k : Key} (hnumber : number < Nat.pow 2 32)
    (h : ∀ e ∈ k.entries, e.ReadBack) :
    (Expression.target { Target.register .pmc number with key := some k }).ReadBack := by
  intro l blanks tail hrest hblanks _ _
  rw [List.append_assoc, toList_render_keyed, ← List.append_assoc] at hrest
  have hkey : Separated (k.render.toList ++ tail) := by
    obtain ⟨first, more⟩ := k
    rw [toList_render_key]
    exact .cons rfl _
  obtain ⟨t, l₁, hsteps, ht, -, hrest₁, -⟩ :=
    Lexer.reads_register .pmc hnumber hrest hblanks hkey
  obtain ⟨u, L, l', hsteps₁, hu, hrest', hk⟩ := readBack_key h [] hrest₁ nofun
  refine ⟨t, _, l', hsteps, ht ▸ ⟨rfl, rfl, nofun⟩, hrest', fun b _ => ?_⟩
  have hk := hk b
  rw [hsteps₁] at hk
  rw [hsteps, hsteps₁]
  exact Parser.value_keyed ht (by rw [hu]; rfl) hk

/-- Every value is read back. -/
theorem Expression.IsValue.readBack {e : Expression} (h : e.IsValue) : e.ReadBack := by
  induction h with
  | register htype hnumber => exact readBack_register htype hnumber
  | keyed hnumber _ ih => exact readBack_keyed hnumber ih
  | int n => exact readBack_int n
  | string hs => exact readBack_string hs

/-! Operands -/

/-- Every name among the operands is taken for a label. -/
def Builder.Bare (b : Builder) : Prop := ∀ name, b.identifierOperand name = .label name

theorem TokenKind.isName_ofName (text : List Char) : (ofName text).isName = true := by
  unfold ofName
  split <;> rfl

/-- A name is read as an operand where it is taken for a label. -/
theorem readBack_label {name : String} (h : IsWord name)
    (hrest : l.rest = ' ' :: (name.toList ++ tail)) (htail : Separated tail) :
    ∃ (t : Token) (L : List Step) (l' : Lexer), l.steps = .ok t :: L ∧ t.kind.isName = true ∧
      l'.rest = tail ∧ ∀ b : Builder, b.Bare → Unindexed l'.steps →
        opArgument.Yields l.steps b (.label name) l'.steps b := by
  obtain ⟨t, l', hsteps, hkind, hlexeme, hrest', -⟩ :=
    Lexer.reads_word h (show l.rest = [' '] ++ (name.toList ++ tail) from hrest)
      (by simp [isBlank]) htail
  rw [String.ofList_toList] at hlexeme
  have hisName : t.kind.isName = true := hkind ▸ TokenKind.isName_ofName _
  refine ⟨t, _, l', hsteps, hisName, hrest', fun b hb hL => ?_⟩
  have hlabel := Parser.opArgument_name (b := b) hisName hL
  rw [hlexeme, hb name] at hlabel
  rw [hsteps]
  exact hlabel

/-- An operand behind a blank is read from its text. -/
theorem Expression.IsOperand.readBack {e : Expression} (h : e.IsOperand)
    (hrest : l.rest = ' ' :: (e.render.toList ++ tail)) (hsign : l.sign.permits true = true)
    (htail : Separated tail) :
    ∃ (t : Token) (L : List Step) (l' : Lexer), l.steps = .ok t :: L ∧ t.kind.isNewline = false ∧
      ((∀ k, e ≠ .key k) → ∀ op, t.kind ≠ .operator op) ∧ l'.rest = tail ∧
      ∀ b : Builder, b.Bare → Unindexed l'.steps → opArgument.Yields l.steps b e l'.steps b := by
  have hblank : ∀ b ∈ [' '], isBlank b = true := by simp [isBlank]
  cases h with
  | value h =>
    obtain ⟨t, L, l', hsteps, ht, hrest', hvalue⟩ :=
      h.readBack l [' '] tail (by simpa using hrest) hblank hsign htail
    refine ⟨t, L, l', hsteps, ht.newline, fun _ => ht.operator, hrest', fun b _ hL => ?_⟩
    have hvalue := hvalue b hL
    rw [hsteps] at hvalue ⊢
    refine Parser.opArgument_value ht.name ?_ hvalue
    generalize t.kind = k at ht
    cases k with
    | operator op => exact absurd rfl (ht.operator op)
    | _ => rfl
  | key h =>
    obtain ⟨t, L, l', hsteps, ht, hrest', hk⟩ :=
      readBack_key (fun e he => (h e he).readBack) [' '] hrest hblank
    refine ⟨t, L, l', hsteps, by rw [ht]; rfl, fun hne => absurd rfl (hne _), hrest',
      fun b _ _ => ?_⟩
    have hk := hk b
    rw [hsteps] at hk ⊢
    exact Parser.opArgument_key ht hk
  | label h =>
    obtain ⟨t, L, l', hsteps, ht, hrest', hlabel⟩ := readBack_label h hrest htail
    refine ⟨t, L, l', hsteps, ?_, fun _ op hop => ?_, hrest', hlabel⟩
    · generalize t.kind = k at ht
      cases k <;> first | rfl | cases ht
    · rw [hop] at ht
      cases ht

/-- Operands behind the first one, each behind its comma. -/
def listed (more : List Expression) : List Char :=
  more.flatMap fun e => ',' :: ' ' :: e.render.toList

theorem listed_cons (e : Expression) (more : List Expression) (tail : List Char) :
    listed (e :: more) ++ tail = ',' :: ' ' :: (e.render.toList ++ (listed more ++ tail)) := by
  simp only [listed, List.flatMap_cons, List.cons_append, List.append_assoc]

theorem separated_listed (more : List Expression) (tail : List Char) :
    Separated (listed more ++ '\n' :: tail) := by
  cases more with
  | nil => exact .cons rfl tail
  | cons e more =>
    rw [listed_cons]
    exact .cons rfl _

/-- The operands of an instruction are read up to the end of its line. -/
theorem readBack_operands {e : Expression} {more : List Expression}
    (h : ∀ d ∈ e :: more, d.IsOperand)
    (hrest : l.rest = ' ' :: (e.render.toList ++ (listed more ++ '\n' :: tail)))
    (hsign : l.sign.permits true = true) :
    ∃ (t u : Token) (L : List Step) (l' : Lexer), l.steps = .ok t :: L ∧
      t.kind.isNewline = false ∧ ((∀ k, e ≠ .key k) → ∀ op, t.kind ≠ .operator op) ∧
      u.kind = .newline ∧ l'.rest = tail ∧ ∀ b : Builder, b.Bare → ∀ operands,
        (Act.iterate (nextItem .comma opArgument) operands).Yields l.steps b
          (operands ++ e :: more) (.ok u :: l'.steps) b := by
  -- An operand is read first, as the loop asks for a comma only behind one.
  induction more generalizing e l with
  | nil =>
    obtain ⟨t, L, l₁, hsteps, hnewline, hoperator, hrest₁, he⟩ :=
      (h e List.mem_cons_self).readBack hrest hsign (separated_listed [] tail)
    obtain ⟨u, l', hsteps₁, hu, -, hrest', -⟩ := Lexer.reads_newline hrest₁
    refine ⟨t, u, L, l', hsteps, hnewline, hoperator, hu, hrest', fun b hb operands => ?_⟩
    have he := he b hb (hsteps₁ ▸ unindexed_of_newline hu _)
    rw [hsteps₁] at he
    exact Parser.operands_stop he (by rw [hu]; rfl) operands
  | cons d more ih =>
    obtain ⟨t, L, l₁, hsteps, hnewline, hoperator, hrest₁, he⟩ :=
      (h e List.mem_cons_self).readBack hrest hsign (separated_listed (d :: more) tail)
    rw [listed_cons] at hrest₁
    obtain ⟨v, l₂, hsteps₁, hv, -, hrest₂, hsign₂⟩ :=
      Lexer.reads_mark .comma (by decide) [] hrest₁ nofun
    obtain ⟨-, u, -, l', -, -, -, hu, hrest', hmore⟩ :=
      ih (fun x hx => h x (List.mem_cons_of_mem e hx)) hrest₂ (by rw [hsign₂]; rfl)
    refine ⟨t, u, L, l', hsteps, hnewline, hoperator, hu, hrest', fun b hb operands => ?_⟩
    have he := he b hb (hsteps₁ ▸ unindexed_of_operator hv nofun _)
    have hall := hmore b hb (operands ++ [e])
    rw [List.append_assoc] at hall
    rw [hsteps₁] at he
    exact Parser.operands_more he (by rw [hv]; rfl) hall

/-! Instructions -/

/-- The operands of an instruction as its text shows them. -/
def operandText : List Expression → List Char
  | [] => []
  | e :: more => ' ' :: (e.render.toList ++ listed more)

theorem toList_intercalate (e : Expression) (more : List Expression) :
    (", ".intercalate ((e :: more).map Expression.render)).toList =
      e.render.toList ++ listed more := by
  induction more generalizing e with
  | nil => simp [listed]
  | cons d more ih =>
    have htail := ih d
    rw [List.map_cons] at htail
    rw [List.map_cons, List.map_cons, String.intercalate_cons_cons, String.toList_append,
      String.toList_append, htail]
    simp [listed]

theorem toList_render (i : Instruction) : i.render.toList =
    (match i.label with
      | some name => name.toList ++ [':', ' ']
      | none => []) ++ (i.opcode.toList ++ operandText i.operands) := by
  obtain ⟨label, opcode, operands⟩ := i
  cases operands with
  | nil => cases label <;> simp [Instruction.render, operandText]
  | cons e more =>
    have h := toList_intercalate e more
    rw [List.map_cons] at h
    cases label <;> simp [Instruction.render, operandText, h]

/-- An opcode with its operands is read up to the end of its line. -/
theorem readBack_opcode {opcode : String} {operands : List Expression} (hword : IsWord opcode)
    (hname : Keyword.ofSpelling? opcode = none) (hoperands : ∀ e ∈ operands, e.IsOperand)
    (hfirst : ∀ k, operands.head? ≠ some (.key k)) (blanks : List Char)
    (hrest : l.rest = blanks ++ (opcode.toList ++ (operandText operands ++ '\n' :: tail)))
    (hblanks : ∀ b ∈ blanks, isBlank b = true) :
    ∃ (t : Token) (L : List Step) (l' : Lexer), l.steps = .ok t :: L ∧ t.kind = .identifier ∧
      l'.rest = tail ∧ ∀ b b' : Builder, (b.beginInstruction opcode).Bare →
        Build.finishInstruction.run
          { b with pendingInstruction := some (.of opcode operands) } = (.ok (), b') →
        Parser.statementOrBlock.Yields l.steps b none l'.steps b' := by
  have htail : Separated (operandText operands ++ '\n' :: tail) := by
    cases operands with
    | nil => exact .cons rfl tail
    | cons e more => exact .cons rfl _
  obtain ⟨t, l₁, hsteps, hkind, hlexeme, hrest₁, hsign₁⟩ :=
    Lexer.reads_word hword hrest hblanks htail
  rw [String.ofList_toList] at hlexeme
  have hidentifier : TokenKind.ofName opcode.toList = .identifier := by
    rw [TokenKind.ofName, String.ofList_toList, hname]
  rw [hidentifier] at hkind hsign₁
  cases operands with
  | nil =>
    obtain ⟨u, l', hsteps₁, hu, -, hrest', -⟩ := Lexer.reads_newline hrest₁
    refine ⟨t, _, l', hsteps, hkind, hrest', fun b b' _ hfinish => ?_⟩
    rw [hsteps, hsteps₁]
    refine Parser.statement_opcode hkind (by simp [hu]) ?_
    exact Parser.opStatement_yields (Parser.opArguments_none (by rw [hu]; rfl)) (by rw [hu]; rfl)
      (hlexeme ▸ hfinish)
  | cons e more =>
    rw [operandText, List.cons_append, List.append_assoc] at hrest₁
    obtain ⟨v, u, L, l', hsteps₁, hnewline, hoperator, hu, hrest', hall⟩ :=
      readBack_operands hoperands hrest₁ (by rw [hsign₁]; rfl)
    -- A name with an operator behind it would be read as an assignment or a call.
    have hfirst : ∀ op, v.kind ≠ .operator op := by
      apply hoperator
      rintro k rfl
      exact hfirst k rfl
    refine ⟨t, _, l', hsteps, hkind, hrest', fun b b' hb hfinish => ?_⟩
    have hall := hall _ hb []
    rw [hsteps₁] at hall
    rw [hsteps, hsteps₁]
    refine Parser.statement_opcode hkind hfirst ?_
    exact Parser.opStatement_yields (hlexeme ▸ Parser.opArguments_some hnewline hall)
      (by rw [hu]; rfl) (hlexeme ▸ hfinish)

end PirFrontend
