import PirFrontend.Proofs.Parting

/-!
A line that begins with an invalid character. It counts for an empty one, unless the line in front
of it is broken and had looked so far when it broke. Then it counts for an empty line and one with
the rest of its text.
-/
namespace PirFrontend

/-- Some line of `front` is broken when its look ahead meets the end of `front`, and reading goes
on there with `rest`. -/
def Overlooked (front rest : String) (o : BuildOptions) : Prop :=
  Parser.MendsOnto (Lexer.behind front rest).steps .top (Session.start (front ++ rest) o)

/-- The steps of a text in which a line begins with an invalid character. -/
theorem steps_invalid (o : BuildOptions) (a r c : String) : ∃ f,
    (Session.start (a ++ "\n@" ++ r ++ "\n" ++ c) o).steps =
      (Lexer.behind "" a).steps ++ .ok (Lexer.behind "" a).newlineToken :: .error f ::
        (Lexer.behind (a ++ "\n@") (r ++ "\n" ++ c)).steps := by
  have hat : "\n@" = "\n" ++ "@" := rfl
  obtain ⟨f, hf⟩ := Lexer.steps_behind_invalid (a ++ "\n") (r ++ "\n" ++ c)
  have hsplit := Lexer.steps_source o a ("@" ++ (r ++ "\n" ++ c))
  rw [hf] at hsplit
  simp only [hat, String.append_assoc] at hsplit ⊢
  exact ⟨f, hsplit⟩

/-- The steps of a text in which a line is empty. -/
theorem steps_empty (o : BuildOptions) (a b : String) : ∃ nl, nl.kind.isNewline = true ∧
    (Session.start (a ++ "\n\n" ++ b) o).steps =
      (Lexer.behind "" a).steps ++ .ok (Lexer.behind "" a).newlineToken :: .ok nl ::
        (Lexer.behind (a ++ "\n\n") b).steps := by
  have htwo : "\n\n" = "\n" ++ "\n" := rfl
  have hsplit := Lexer.steps_source o a ("" ++ "\n" ++ b)
  have hempty := Lexer.steps_behind (a ++ "\n") "" b
  have hnil : (Lexer.behind (a ++ "\n") "").steps = [] := Lexer.steps_of_done rfl
  rw [hempty, hnil] at hsplit
  simp only [htwo, String.append_assoc, String.empty_append] at hsplit ⊢
  exact ⟨_, rfl, hsplit⟩

/-- Behind a line without tokens that end it, the text goes on behind its newline. -/
theorem steps_rest {front r c : String} (hr : '\n' ∉ r.toList) :
    afterLine (Lexer.behind front (r ++ "\n" ++ c)).steps =
      (Lexer.behind (front ++ r ++ "\n") c).steps := by
  rw [Lexer.steps_behind, afterLine_append fun t ht => (Lexer.inline_of_mem_steps hr ht).2]
  rfl

variable {a r c : String} {o : BuildOptions} {x y z : Compiled}

/-- An invalid line that is not overlooked counts for an empty one. -/
theorem unit_eq_of_not_overlooked (hr : '\n' ∉ r.toList)
    (hx : compile (a ++ "\n@" ++ r ++ "\n" ++ c) o = .ok x)
    (hy : compile (a ++ "\n\n" ++ c) o = .ok y)
    (h : ¬Overlooked (a ++ "\n@") (r ++ "\n" ++ c) o) : x.unit = y.unit := by
  obtain ⟨s', hs, rfl⟩ := compile_ok hx
  obtain ⟨t', ht, rfl⟩ := compile_ok hy
  obtain ⟨f, hsteps⟩ := steps_invalid o a r c
  obtain ⟨nl, hnl, hsteps'⟩ := steps_empty o a c
  unfold Overlooked at h
  rw [← String.append_assoc, ← String.append_assoc] at h
  obtain ⟨q, s₁, t₁, hs₁, ht₁, hrel, ht₁s, hX | ⟨ho, -⟩⟩ := parting hnl (Builder.new_twin .built o)
    (by
      rw [hsteps, hsteps']
      exact forking_append _ (.refl _) rfl _ _) hs ht
  · -- The invalid line is broken by its first character and dropped.
    obtain ⟨s₂, hrun, hs₂, hb⟩ := run_line_fault hX q
    obtain ⟨b, hmend, hs₃⟩ := hs₁.mended hrun hs
    rw [hb] at hmend
    have hdrop := run_linesFrom_drop hrel.fits_right (ht₁.run_linesFrom ▸ ht)
    refine unit_eq_of_alike (Pairing.twins_drop (twin_mend_left hrel hmend)) ?_
      (hs₃.run_linesFrom ▸ hs) hdrop
    show List.Forall₂ (StepLike .built) s₂.tokens.skipLine.2.steps t₁.steps
    rw [TokenStream.steps_skipLine, ← Session.steps, hs₂, ht₁s, steps_rest hr]
    exact Lexer.steps_alike rfl rfl trivial
  · exact absurd ho h

/-- Behind an overlooked fault reading goes on in its line. -/
theorem unit_eq_of_overlooked
    (hx : compile (a ++ "\n@" ++ r ++ "\n" ++ c) o = .ok x)
    (hz : compile (a ++ "\n\n" ++ r ++ "\n" ++ c) o = .ok z)
    (h : Overlooked (a ++ "\n@") (r ++ "\n" ++ c) o) : x.unit = z.unit := by
  have hsource : a ++ "\n\n" ++ r ++ "\n" ++ c = a ++ "\n\n" ++ (r ++ "\n" ++ c) := by
    simp only [String.append_assoc]
  rw [hsource] at hz
  obtain ⟨s', hs, rfl⟩ := compile_ok hx
  obtain ⟨t', ht, rfl⟩ := compile_ok hz
  obtain ⟨f, hsteps⟩ := steps_invalid o a r c
  obtain ⟨nl, hnl, hsteps'⟩ := steps_empty o a (r ++ "\n" ++ c)
  unfold Overlooked at h
  rw [← String.append_assoc, ← String.append_assoc] at h
  obtain ⟨q, s₁, t₁, hs₁, ht₁, hrel, ht₁s, hX | ⟨-, hX⟩⟩ := parting hnl (Builder.new_twin .built o)
    (by
      rw [hsteps, hsteps']
      exact forking_append _ (.refl _) rfl _ _) hs ht
  -- Had the line been met at its first character, nothing would have been overlooked.
  · have hne : (Lexer.behind (a ++ "\n@") (r ++ "\n" ++ c)).steps ≠ [] := by
      rw [Lexer.steps_behind]
      simp
    have hlater := h.of_reaches hs₁ (hX ▸ Nat.lt_succ_self _)
    exact absurd hlater (not_mendsOnto_fault hX hne)
  · refine unit_eq_of_alike hrel ?_ (hs₁.run_linesFrom ▸ hs) (ht₁.run_linesFrom ▸ ht)
    rw [hX, ht₁s]
    exact Lexer.steps_alike rfl rfl trivial

/-- If a line that begins with an invalid character is not overlooked, the unit is that of the text
with an empty line in its place. If it is overlooked, the unit is that of the text with an empty
line in front of one with the rest of its text. -/
theorem compile_invalid_line (hr : '\n' ∉ r.toList)
    (hx : compile (a ++ "\n@" ++ r ++ "\n" ++ c) o = .ok x) :
    (¬Overlooked (a ++ "\n@") (r ++ "\n" ++ c) o →
      ∀ y, compile (a ++ "\n\n" ++ c) o = .ok y → x.unit = y.unit) ∧
    (Overlooked (a ++ "\n@") (r ++ "\n" ++ c) o →
      ∀ z, compile (a ++ "\n\n" ++ r ++ "\n" ++ c) o = .ok z → x.unit = z.unit) :=
  ⟨fun h _ hy => unit_eq_of_not_overlooked hr hx hy h,
    fun h _ hz => unit_eq_of_overlooked hx hz h⟩

/-- An assignment that ends behind its equals sign lets the invalid line below it be read. -/
theorem compile_invalid_line_assignment : ∃ x y z,
    compile (".sub main\n$I0 =" ++ "\n@" ++ " $I1 = 2" ++ "\n" ++ ".end\n") .standard = .ok x ∧
    compile (".sub main\n$I0 =" ++ "\n\n" ++ ".end\n") .standard = .ok y ∧
    compile (".sub main\n$I0 =" ++ "\n\n" ++ " $I1 = 2" ++ "\n" ++ ".end\n") .standard = .ok z ∧
    Overlooked (".sub main\n$I0 =" ++ "\n@") (" $I1 = 2" ++ "\n" ++ ".end\n") .standard ∧
    x.unit ≠ y.unit ∧ x.unit = z.unit := by
  have hx : compiles (".sub main\n$I0 =" ++ "\n@" ++ " $I1 = 2" ++ "\n" ++ ".end\n")
      (·.unit.sizes = [1]) = true := by decide +kernel
  have hy : compiles (".sub main\n$I0 =" ++ "\n\n" ++ ".end\n") (·.unit.sizes = [0]) = true := by
    decide +kernel
  have hz : compiles (".sub main\n$I0 =" ++ "\n\n" ++ " $I1 = 2" ++ "\n" ++ ".end\n")
      (·.unit.sizes = [1]) = true := by decide +kernel
  obtain ⟨x, hx, hxn⟩ := exists_of_compiles hx
  obtain ⟨y, hy, hyn⟩ := exists_of_compiles hy
  obtain ⟨z, hz, -⟩ := exists_of_compiles hz
  obtain ⟨hnot, hover⟩ := compile_invalid_line (by decide) hx
  have hne : x.unit ≠ y.unit := by
    intro h
    rw [h, of_decide_eq_true hyn] at hxn
    exact absurd (of_decide_eq_true hxn) (by decide)
  have ho := Classical.not_not.1 fun h => hne (hnot h y hy)
  exact ⟨x, y, z, hx, hy, hz, ho, hne, hover ho z hz⟩

end PirFrontend
