import PirFrontend.Proofs.Operands

/-!
Two runs of the rules for values. Values nest in keys, and what is inside comes after the name or
the register that is indexed.
-/
namespace PirFrontend

open PirFrontend.Parser (Place Block)

theorem TokenStream.Follows.size_mono {s s' : TokenStream} (h : s.Follows s') :
    s'.size ≤ s.size := by
  have := h.size_le
  have := h.steps_le
  omega

namespace Pairing

variable {P : Pairing} [P.Readable] {cr : Prop} {p : Place} {s t : Session} {ks : List TokenKind}

theorem target_reads (h : P.Mid p ks s t) :
    P.Reads cr p Parser.target Parser.target s t (fun _ => ks.tail)
      fun a s' _ => s'.builder.Made (.target a) ∧
        ∀ cls n, ks[0]? = some (.register cls n) → a = .register (.ofRegisterClass cls) n := by
  apply (peekKind_zero h).then
  rintro (_ | k) s₁ t₁ - - - hm ⟨hk, -⟩
  · exact unexpected_runs hm _ _
  cases k with
  | register cls number =>
    apply (advance_runs hm rfl).bind
    intro u v s₂ t₂ _ _ ht
    refine Runs.pure ⟨rfl, .of_eq ht.still.1, ht.mid, .register _ _, fun cls' n h => ?_⟩
    obtain ⟨rfl, rfl⟩ := by simpa using hk _ h
    rfl
  | identifier | keyword =>
    apply (advanceText_reads hm rfl).then
    intro name s₂ t₂ _ _ _ hm _
    apply (reads_build hm (symbolTarget_answers hm.rel name)).imp
    intro a s' t' _ hm ha
    exact ⟨hm, ha, fun cls n h => by simpa using hk _ h⟩
  | _ => exact unexpected_runs hm _ _

/-- A key, if the rule for its values does its part. -/
theorem keyOf_reads {x y : Parser Expression} (h : P.Mid p ks s t)
    (hx : ∀ s' t', s.tokens.Follows s'.tokens → t.tokens.Follows t'.tokens → P.Mid p [] s' t' →
      P.Reads cr p x y s' t' (fun _ => []) fun a s'' _ => s''.builder.Made a) :
    P.Reads cr p (Parser.keyOf x) (Parser.keyOf y) s t (fun _ => [])
      fun a s' _ => s'.builder.Made (.key a) := by
  apply (expectOperator_reads h .leftBracket).then
  intro _ s₁ t₁ hs₁ ht₁ _ hm _
  apply (hx s₁ t₁ hs₁ ht₁ hm.weaken).then
  intro first s₂ t₂ hs₂ ht₂ hw hm hf
  -- The entries behind the first one are read in a loop that keeps them all made.
  refine Reads.then (R := fun more s' _ => ∀ e ∈ more, s'.builder.Made e)
    (?_ : P.Reads cr p _ _ s₂ t₂ (fun _ => []) _) ?_
  · refine Runs.iterate (fun more s' t' => s.tokens.Follows s'.tokens ∧
      t.tokens.Follows t'.tokens ∧ s₂.builder.Within s'.builder ∧ P.Mid p [] s' t' ∧
      ∀ e ∈ more, s'.builder.Made e) ?_
      ⟨hs₁.trans hs₂, ht₁.trans ht₂, .refl _, hm.weaken, fun e he => absurd he List.not_mem_nil⟩
    rintro more s' t' ⟨hs', ht', hw', hm', hmore⟩
    apply (eatOperator_reads hm' .semicolon).bind
    rintro (_ | _) s₃ t₃ hs₃ ht₃ hw₃ hm₃ ⟨-, -, hshort⟩
    · exact Runs.pure ⟨rfl, rfl, hw'.trans hw₃, hm₃, fun e he => (hmore e he).within hw₃⟩
    · apply (hx s₃ t₃ (hs'.trans hs₃) (ht'.trans ht₃) hm₃.weaken).bind
      intro e s₄ t₄ hs₄ ht₄ hw₄ hm₄ he
      refine Runs.pure ⟨rfl, ⟨(hs'.trans hs₃).trans hs₄, (ht'.trans ht₃).trans ht₄,
        (hw'.trans hw₃).trans hw₄, hm₄, ?_⟩, (hshort rfl).follows hs₄ ht₄⟩
      intro e' he'
      obtain he' | rfl := by simpa using he'
      · exact (hmore e' he').within (hw₃.trans hw₄)
      · exact he
  · intro more s₃ t₃ _ _ hw hm hmore
    apply (expectOperator_reads hm .rightBracket).then
    intro _ s₄ t₄ _ _ hw' hm _
    exact Reads.pure hm.weaken
      (.key (hf.within (hw.trans hw')) fun e he => (hmore e he).within hw')

/-- What is known of the tokens behind a value. A bracket behind its first token belongs to it. -/
def behindValue : List TokenKind → List TokenKind
  | _ :: k :: ks => if k.isOperator .leftBracket then [] else k :: ks
  | _ => []

omit [P.Readable] in
theorem Mid.behindValue (h : P.Mid p ks.tail s t) : P.Mid p (behindValue ks) s t := by
  unfold Pairing.behindValue
  split
  · split
    · exact h.weaken
    · exact h
  · exact h.weaken

theorem behindValue_eq_nil (h : ∀ k, ks[1]? = some k → true = k.isOperator .leftBracket) :
    behindValue ks = [] := by
  unfold behindValue
  split
  next k' k ks =>
    rw [if_pos (h k rfl).symm]
  · rfl

/-- An object with the key behind it. -/
theorem keyed_reads {x y : Parser Expression} (h : P.Mid p ks s t)
    (hx : ∀ s' t', s'.tokens.size ≤ s.tokens.size → t'.tokens.size ≤ t.tokens.size →
      P.Mid p [] s' t' →
      P.Reads cr p x y s' t' (fun _ => []) fun a s'' _ => s''.builder.Made a)
    (object : PmcObject) :
    P.Reads cr p (do let k ← Parser.keyOf x; return .target (← Build.indexedTarget object k))
      (do let k ← Parser.keyOf y; return .target (← Build.indexedTarget object k)) s t
      (fun _ => []) fun a s' _ => s'.builder.Made a := by
  apply (keyOf_reads h fun s' t' hs ht => hx s' t' hs.size_mono ht.size_mono).then
  intro k s₁ t₁ _ _ _ hm hk
  apply (reads_build hm (indexedTarget_answers hm.rel object hk)).then
  intro a s₂ t₂ _ _ _ hm ha
  exact .pure hm ha

theorem valueStep_reads {x y : Parser Expression} (h : P.Mid p ks s t)
    (hx : ∀ s' t', s'.tokens.size < s.tokens.size → t'.tokens.size < t.tokens.size →
      P.Mid p [] s' t' →
      P.Reads cr p x y s' t' (fun _ => []) fun a s'' _ => s''.builder.Made a) :
    P.Reads cr p (Parser.valueStep x) (Parser.valueStep y) s t (fun _ => behindValue ks)
      fun a s' _ => s'.builder.Made a := by
  apply (peekKind_zero h).then
  rintro (_ | k) s₁ t₁ hs₁ ht₁ - hm ⟨hk, -⟩
  · exact unexpected_runs hm _ _
  have hks : ∀ k', ks[1]? = some k' → (known ks (some k))[1]? = some k' := by
    intro k' hk'
    simpa [known] using hk'
  have hhead : ∀ k' ∈ (known ks (some k)).take 1, k' = k := by simp [known]
  -- A target alone, without a key behind it.
  have hplain (s₂ t₂) (hm : P.Mid p (known ks (some k)) s₂ t₂) :
      P.Reads cr p (do return .target (← Parser.target)) (do return .target (← Parser.target))
        s₂ t₂ (fun _ => behindValue ks) fun a s' _ => s'.builder.Made a :=
    (target_reads hm).then fun a s₃ t₃ _ _ _ hm ha => .pure (Mid.behindValue hm) ha.1
  cases k with
  | register cls number =>
    cases cls with
    | pmc =>
      refine (atOperator_reads (n := 1) hm (by simp [known]) ?_ (by decide) .leftBracket).then ?_
      · intro k' hk'
        rw [hhead k' hk']
        rfl
      rintro (_ | _) s₂ t₂ hs₂ ht₂ - hm ⟨-, hbr⟩
      · exact hplain s₂ t₂ hm
      · rw [behindValue_eq_nil fun k' hk' => hbr k' (hks k' hk')]
        apply (advance_runs hm rfl).bind
        intro u v s₃ t₃ hs₃ ht₃ htake
        -- A key is read from a shorter text, so the rule may be used again for its entries.
        have hle := (hs₁.trans hs₂).size_mono
        have hle' := (ht₁.trans ht₂).size_mono
        have hlt := hs₃.size_lt htake.shorter.1
        have hlt' := ht₃.size_lt htake.shorter.2
        refine Runs.within htake.still.1 (keyed_reads htake.mid (fun s' t' hs ht => ?_) _)
        exact hx s' t' (by omega) (by omega)
    | _ => exact hplain s₁ t₁ hm
  | identifier | keyword =>
    apply (advanceText_reads hm rfl).then
    intro name s₂ t₂ hs₂ ht₂ _ hm ⟨_, hshort⟩
    have hlt := hs₂.size_lt hshort.1
    have hlt' := ht₂.size_lt hshort.2
    apply (atOperator_reads (n := 0) hm (Nat.zero_le _) (by simp) (by decide) .leftBracket).then
    rintro (_ | _) s₃ t₃ hs₃ ht₃ - hm ⟨-, hbr⟩
    · exact (reads_build hm (identifierValue_answers hm.rel name)).imp fun a s' t' _ hm ha =>
        ⟨Mid.behindValue hm, ha⟩
    · rw [behindValue_eq_nil fun k' hk' => hbr k' (by simpa [known] using hk')]
      have hle := hs₁.size_mono
      have hle' := ht₁.size_mono
      have hle₃ := hs₃.size_mono
      have hle₃' := ht₃.size_mono
      exact keyed_reads hm (fun s' t' hs ht => hx s' t' (by omega) (by omega)) _
  | int | num | string =>
    apply (advance_runs hm rfl).bind
    intro u v s₂ t₂ _ _ ht
    exact Runs.pure ⟨rfl, .of_eq ht.still.1, Mid.behindValue ht.mid, .constant _⟩
  | _ => exact unexpected_runs hm _ _

theorem value_reads (h : P.Mid p ks s t) :
    P.Reads cr p Parser.value Parser.value s t (fun _ => behindValue ks)
      fun a s' _ => s'.builder.Made a := by
  have hinner : ∀ s t, P.Mid p [] s t → P.Reads cr p Parser.value Parser.value s t (fun _ => [])
      fun a s' _ => s'.builder.Made a := fun s t h =>
    Runs.nest (P.Mid p []) (fun _ _ _ _ h hx => valueStep_reads h hx) h
  show P.Ends cr p s t _ (Act.nest Parser.valueStep s) (Act.nest Parser.valueStep t)
  rw [Act.nest, Act.nest]
  apply valueStep_reads h
  intro s' t' hs ht hm
  have hs' : s'.size < s.size := hs
  have ht' : t'.size < t.size := ht
  show P.Ends cr p s' t' _ (if s'.size < s.size then _ else _) (if t'.size < t.size then _ else _)
  simp only [hs', ht', if_true]
  exact hinner s' t' hm

theorem key_reads (h : P.Mid p ks s t) :
    P.Reads cr p Parser.key Parser.key s t (fun _ => []) fun a s' _ => s'.builder.Made (.key a) :=
  keyOf_reads h fun _ _ _ _ hm => value_reads hm

theorem pmcObject_reads (h : P.Mid p ks s t) :
    P.Reads cr p Parser.pmcObject Parser.pmcObject s t (fun _ => ks.tail)
      fun _ s' t' => Still s t s' t' := by
  apply (peekKind_zero h).then
  rintro (_ | k) s₁ t₁ - - - hm ⟨-, hst, -⟩
  · exact unexpected_runs hm _ _
  cases k with
  | register cls number =>
    cases cls with
    | pmc =>
      apply (advance_runs hm rfl).bind
      intro u v s₂ t₂ _ _ ht
      exact Runs.pure ⟨rfl, .of_eq ht.still.1, ht.mid, hst.trans ht.still⟩
    | _ => exact unexpected_runs hm _ _
  | identifier | keyword =>
    apply (advanceText_reads hm rfl).then
    intro name s₂ t₂ _ _ _ hm ht
    exact .pure hm (hst.trans ht.1)
  | _ => exact unexpected_runs hm _ _

theorem identifierOperand_made (h : P.rel p s.builder t.builder) (name : String) :
    s.builder.identifierOperand name = t.builder.identifierOperand name ∧
      s.builder.MadeSource (s.builder.identifierOperand name) := by
  have ha := Readable.alike h
  unfold Builder.identifierOperand
  rw [← ha.lookup, ← ha.lookupConstant]
  refine ⟨rfl, ?_⟩
  split
  next hs => exact .inl (.symbol hs)
  next =>
    split
    next => exact .inl (.constant _)
    next => exact .inr ⟨name, rfl⟩

/-- An operand of an opcode. -/
theorem opArgument_reads (h : P.Mid p [] s t) :
    P.Reads cr p Parser.opArgument Parser.opArgument s t (fun _ => [])
      fun a s' _ => s'.builder.MadeSource a := by
  have hvalue (ks s t) (h : P.Mid p ks s t) : P.Reads cr p Parser.value Parser.value s t
      (fun _ => []) fun a s' _ => s'.builder.MadeSource a :=
    (value_reads h.weaken).imp fun a s' t' _ hm ha => ⟨hm, .inl ha⟩
  apply (peekKind_zero h).then
  rintro (_ | k) s₁ t₁ - - - hm -
  · exact hvalue _ _ _ hm
  cases k with
  | identifier | keyword =>
    -- A bracket behind the name makes it a value with a key.
    refine (atOperator_reads (n := 1) hm (by simp [known]) ?_ (by decide) .leftBracket).then ?_
    · simp [known, TokenKind.isNewline]
    rintro (_ | _) s₂ t₂ - - - hm -
    · apply (advanceText_reads hm rfl).then
      intro name s₃ t₃ _ _ _ hm _
      obtain ⟨heq, hmade⟩ := identifierOperand_made hm.rel name
      exact .ok (.refl _) (.refl _) ⟨heq, .refl _, hm, hmade⟩
    · exact hvalue _ _ _ hm
  | operator op =>
    cases op with
    | leftBracket =>
      apply (key_reads hm).then
      intro k s₂ t₂ _ _ _ hm hk
      exact .pure hm (.inl hk)
    | _ => exact hvalue _ _ _ hm
  | _ => exact hvalue _ _ _ hm

theorem opArguments_reads (h : P.Mid p ks s t) :
    P.Reads cr p Parser.opArguments Parser.opArguments s t (fun _ => [])
      fun as s' _ => ∀ a ∈ as, s'.builder.MadeSource a := by
  apply (atKind_zero (f := (·.all (·.isNewline))) h).then
  rintro (_ | _) s₁ t₁ - - - hm -
  · exact separated_reads (fun _ _ _ hw ha => ha.within hw) (fun s t h => opArgument_reads h) hm
  · exact .pure hm (by simp)

end Pairing
end PirFrontend
