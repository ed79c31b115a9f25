import Mathlib.Data.Fintype.EquivFin
import Mathlib.Logic.Equiv.Basic
import PirFrontend.Proofs.RenamedPrograms

/-!
The names of types as names. In a text that compiles without a problem a name may be replaced by the
name of a type, if that names nothing there yet: the text still compiles without a problem, and to
the same unit with the name replaced. This fails where a number with its sign stands directly behind
the name: behind the name of a type its sign is read as part of the number, behind an identifier it
is not.
-/
namespace PirFrontend

open HasClean
open PirFrontend.Parser (Place)

/-! What heads a subroutine -/

/-- The names in the heading of a subroutine, and the types of its invocants. -/
def Subroutine.headings (s : Subroutine) : List String :=
  s.name :: s.outer.toList ++ s.parameters.filterMap (·.invocantType)

def CompilationUnit.headings (u : CompilationUnit) : List String :=
  u.subroutines.flatMap Subroutine.headings

/-- What was compiled, with its names and labels replaced, also where a fault tells of one. -/
def Compiled.rename (f : String → String) (c : Compiled) : Compiled :=
  { c with unit := c.unit.rename f, labelFaults := c.labelFaults.map (LabelFault.rename f) }

theorem FixedAlike.compiled {f g h : String → String} (hf : FixedAlike f g h) :
    FixedAlike (Compiled.rename f) (Compiled.rename g) (Compiled.rename h) := by
  rintro ⟨unit, diagnostics, labelFaults⟩ hc
  simp only [Compiled.rename, Compiled.mk.injEq, true_and] at hc ⊢
  exact ⟨hf.unit unit hc.1, hf.labelFault.list labelFaults hc.2⟩

theorem eq_map_of_forall₂ {α β : Type} {r : α → β → Prop} {f : α → β} {as : List α} {bs : List β}
    (h : List.Forall₂ r as bs) (hf : ∀ a ∈ as, ∀ b, r a b → b = f a) : bs = as.map f := by
  induction h with
  | nil => rfl
  | cons hab _ ih =>
    rw [List.map_cons, hf _ List.mem_cons_self _ hab,
      ih fun a ha => hf a (List.mem_cons_of_mem _ ha)]

namespace Respelling

variable {ρ : Respelling}

theorem Parameters.eq_rename {p q : Parameter} (h : ρ.Parameters p q)
    (hhidden : p.invocantType ≠ some ρ.hidden) : q = p.rename ρ.name := by
  obtain ⟨target, invocantType⟩ := q
  obtain rfl : target = p.target.rename ρ.name := h.target
  obtain rfl : invocantType = p.invocantType := h.invocantType hhidden
  rfl

/-- The name that is hidden is the only one in a heading that may be another one. -/
theorem Subs.eq_rename {s u : Subroutine} (h : ρ.Subs s u) (hhidden : ρ.hidden ∉ s.headings) :
    u = s.rename ρ.name := by
  simp only [Subroutine.headings, List.cons_append, List.mem_cons, List.mem_append,
    Option.mem_toList, List.mem_filterMap, not_or, not_exists, not_and] at hhidden
  obtain ⟨hname, houter, htypes⟩ := hhidden
  replace hname : s.name ≠ ρ.hidden := Ne.symm hname
  have hparameters : u.parameters = s.parameters.map (Parameter.rename ρ.name) :=
    eq_map_of_forall₂ h.parameters fun p hp _ hpq => hpq.eq_rename (htypes p hp)
  obtain ⟨name, flags, outer, vtable, lexid, instanceof, namespaceKey, parameters, lexicals,
    constants, statements, labels, symbols⟩ := u
  simp only [Subroutine.rename, Subroutine.mk.injEq]
  exact ⟨h.name hname, h.flags, h.outer houter, h.vtable hname, h.lexid, h.instanceof,
    h.namespaceKey, hparameters, h.lexicals, h.constants, h.statements, h.labels, h.symbols⟩

theorem Units.eq_rename {u w : CompilationUnit} (h : ρ.Units u w)
    (hhidden : ρ.hidden ∉ u.headings) : w = u.rename ρ.name := by
  have hsubroutines : w.subroutines = u.subroutines.map (Subroutine.rename ρ.name) :=
    eq_map_of_forall₂ h.subroutines fun s hs _ hsu =>
      hsu.eq_rename fun hmem => hhidden (List.mem_flatMap.2 ⟨s, hs, hmem⟩)
  obtain ⟨subroutines, globalConstants, constants, namespaceKey, hll, hllMap, libraries⟩ := w
  simp only [CompilationUnit.rename, CompilationUnit.mk.injEq]
  exact ⟨hsubroutines, h.globalConstants, h.constants, h.namespaceKey, h.hll, h.hllMap,
    h.libraries⟩

/-! Whole texts -/

theorem builders_new {o : BuildOptions} (h : (Builder.new o).opcodes.contains ρ.hidden = false) :
    ρ.Builders (.new o) (.new o) where
  options := rfl
  opcodes := rfl
  hidden := h
  unit := ⟨.nil, rfl, rfl, rfl, rfl, rfl, rfl⟩
  current := .none
  pendingLabel := rfl
  pendingInstruction := .none
  pendingCall := rfl
  diagnostics := rfl
  aborted := rfl

/-- A text that compiles without a problem is read to its end without one. -/
theorem clean_of_compile {source : String} {o : BuildOptions} {c : Compiled}
    (hc : compile source o = .ok c) (hdiagnostics : c.diagnostics = []) :
    ∃ s, (Parser.linesFrom .top).run (Session.start source o) = (.ok (), s) ∧ Clean s ∧
      c = ⟨s.builder.finish.1, s.builder.finish.2,
        if o.verifyLabels then s.builder.finish.1.labelFaults else []⟩ := by
  obtain ⟨s, hrun, rfl⟩ := compile_ok hc
  refine ⟨s, hrun, ⟨?_, [], Parser.steps_of_linesFrom hrun⟩, rfl⟩
  rw [← Builder.finish_diagnostics]
  exact hdiagnostics

/-- A text and the same text under other names compile alike. -/
theorem compile_eq_rename {source source' : String} {o : BuildOptions} {c : Compiled}
    {ts us : List Token} (hopcode : (Builder.new o).opcodes.contains ρ.hidden = false)
    (hts : (Lexer.ofString 0 source).steps = ts.map .ok)
    (hus : (Lexer.ofString 0 source').steps = us.map .ok) (htexts : ρ.Texts false ts us)
    (hc : compile source o = .ok c) (hdiagnostics : c.diagnostics = [])
    (hheadings : ρ.hidden ∉ c.unit.headings) :
    compile source' o = .ok (c.rename ρ.name) := by
  obtain ⟨s, hrun, hclean, rfl⟩ := clean_of_compile hc hdiagnostics
  have hstart : ρ.At false Anything (.start source o) (.start source' o) :=
    ⟨builders_new hopcode, ts, us, hts, hus, htexts, trivial⟩
  obtain ⟨_, t, hrun', -, hat⟩ := (linesFrom_reads .top).carry hstart hrun hclean
  have hunit : t.builder.finish.1 = s.builder.finish.1.rename ρ.name :=
    hat.builders.closeSub.unit.eq_rename hheadings
  have hnone : t.builder.finish.2 = s.builder.finish.2 := by
    rw [Builder.finish_diagnostics, hat.builders.diagnostics]
    exact hdiagnostics.symm
  rw [compile_eq, hrun']
  simp only [hunit, hnone, Compiled.rename, CompilationUnit.labelFaults_rename ρ.injective]
  split <;> rfl

end Respelling

/-- A text that compiles without a problem is made of tokens only. -/
theorem steps_of_compile {source : String} {o : BuildOptions} {c : Compiled}
    (hc : compile source o = .ok c) (hdiagnostics : c.diagnostics = []) :
    ∃ ts : List Token, (Lexer.ofString 0 source).steps = ts.map .ok := by
  obtain ⟨s, hrun, hclean, -⟩ := Respelling.clean_of_compile hc hdiagnostics
  let ρ : Respelling := ⟨id, Function.injective_id, rfl, ""⟩
  exact ((Respelling.linesFrom_reads (ρ := ρ) .top).clean hrun hclean).2

theorem TokenKind.eq_of_isKeyword {kind : TokenKind} {k : Keyword}
    (h : kind.isKeyword k = true) : kind = .keyword k := by
  cases kind with
  | keyword w => exact congrArg keyword (eq_of_beq h)
  | _ => cases h

/-! The name of a type in the place of another name -/

/-- Whether the keyword is used as a name. The first token is a type if it stands behind a
directive that declares. -/
def namedAmong (k : Keyword) : Bool → List Token → Bool
  | _, [] => false
  | declared, t :: ts =>
    (t.kind.isWord && t.lexeme == k.spelling && !(declared && t.kind.isKeyword k)) ||
      namedAmong k t.kind.declares ts

/-- Whether the text uses the keyword as a name: as any word but the type that a directive
declares. -/
def Lexer.names (l : Lexer) (k : Keyword) : Bool :=
  namedAmong k false (l.steps.filterMap Except.toOption)

/-- The text with each token that is spelled `v` spelled like the keyword. -/
def respelled (v : String) (k : Keyword) (source : String) : String :=
  String.ofList ((Lexer.ofString 0 source).respelled v.toList k)

variable {v w source : String} {k : Keyword} {o : BuildOptions} {c : Compiled}

/-- A name and the name of a type, each in the place of the other. -/
def Respelling.exchange (v : String) (k : Keyword) (hv : v ≠ "null") (hk : k.IsType) :
    Respelling where
  name := Equiv.swap v k.spelling
  injective := (Equiv.swap v k.spelling).injective
  name_null := by
    refine Equiv.swap_apply_of_ne_of_ne hv.symm ?_
    cases k <;> first | decide | cases hk
  hidden := v

theorem Respelling.exchange_texts (hv : v ≠ "null") (hk : k.IsType) {declared : Bool}
    {ts us : List Token} (h : List.Forall₂ (Token.Respelt v k) ts us)
    (hfree : namedAmong k declared ts = false) : (exchange v k hv hk).Texts declared ts us := by
  induction h generalizing declared with
  | nil => exact .nil declared
  | @cons t u ts us hrespelt hall ih =>
    simp only [namedAmong, Bool.or_eq_false_iff] at hfree
    obtain ⟨hword, hrest⟩ := hfree
    have hname : Equiv.swap v k.spelling v = k.spelling := Equiv.swap_apply_left _ _
    cases hrespelt with
    | name hspelled hidentifier hkeyword hlexeme =>
      refine .word ⟨.inr ⟨congrArg some hidentifier, k, hk, congrArg some hkeyword⟩, fun _ => ?_,
        fun _ hne => absurd hspelled hne⟩ (ih hrest)
      rw [hlexeme, hspelled]
      exact hname.symm
    | label hspelled hlabel hlabel' hlexeme =>
      refine .word ⟨.inl (congrArg some (hlabel'.trans hlabel.symm)), fun _ => ?_,
        fun _ hne => absurd hspelled hne⟩ (ih hrest)
      rw [hlexeme, hspelled]
      exact hname.symm
    | same hne hkind hlexeme =>
      -- Behind a directive that declares, the keyword means the type and stays what it is.
      by_cases htype : declared = true ∧ t.kind = .keyword k
      · obtain ⟨rfl, hkeyword⟩ := htype
        rw [hkeyword] at hrest
        exact .type hkeyword (hkind.trans hkeyword) (ih hrest)
      · refine .word ⟨.inl (congrArg some hkind), fun hisWord => ?_, fun _ _ => hlexeme⟩ (ih hrest)
        have hspelling : t.lexeme ≠ k.spelling := by
          intro heq
          simp only [hisWord, heq, beq_self_eq_true, Bool.true_and, Bool.not_eq_false',
            Bool.and_eq_true] at hword
          exact htype ⟨hword.1, TokenKind.eq_of_isKeyword hword.2⟩
        rw [hlexeme]
        exact (Equiv.swap_apply_of_ne_of_ne hne hspelling).symm

/-- What a text without the name of a type compiles to does not have it either, so nothing of it
changes if that name is exchanged with another one that is not in the text. -/
theorem rename_exchange {ts : List Token} (hk : k.IsType)
    (hts : (Lexer.ofString 0 source).steps = ts.map .ok) (hfree : namedAmong k false ts = false)
    (hw : w ≠ "null") (hunused : w ∉ ts.map (·.lexeme))
    (hopcode : (Builder.new o).opcodes.contains w = false) (hheadings : w ∉ c.unit.headings)
    (hc : compile source o = .ok c) (hdiagnostics : c.diagnostics = []) :
    c.rename (Equiv.swap w k.spelling) = c := by
  have hrespelt : List.Forall₂ (Token.Respelt w k) ts ts := by
    refine List.forall₂_same.2 fun t ht => .same ?_ rfl rfl
    rintro rfl
    exact hunused (List.mem_map_of_mem ht)
  have htexts := Respelling.exchange_texts hw hk hrespelt hfree
  have hcompile := Respelling.compile_eq_rename hopcode hts hts htexts hc hdiagnostics hheadings
  exact Except.ok.inj (hcompile.symm.trans hc)

/-- If a text compiles without a problem, and the name of a type names nothing in it, then that may
stand in the place of a name that is neither an opcode nor in the heading of a subroutine. A number
with its sign must not stand directly behind that name. -/
theorem compile_respelled (hk : k.IsType) (hword : IsWord v)
    (hidentifier : TokenKind.ofName v.toList = .identifier) (hc : compile source o = .ok c)
    (hdiagnostics : c.diagnostics = []) (hopcode : (Builder.new o).opcodes.contains v = false)
    (hheadings : v ∉ c.unit.headings) (hfree : (Lexer.ofString 0 source).names k = false)
    (hglued : (Lexer.ofString 0 source).glued v.toList = false) :
    ∃ c', compile (respelled v k source) o = .ok c' ∧ c'.diagnostics = [] ∧
      c' = c.rename fun n => if n = v then k.spelling else n := by
  obtain ⟨ts, hts⟩ := steps_of_compile hc hdiagnostics
  replace hfree : namedAmong k false ts = false := by
    rw [Lexer.names, hts] at hfree
    simpa [List.filterMap_map, Function.comp_def, Except.toOption] using hfree
  have hv : v ≠ "null" := by
    rintro rfl
    cases hidentifier
  obtain ⟨us, hus, hrespelt⟩ := Lexer.steps_respelled (m := .ofString 0 (respelled v k source)) hk
    hword hidentifier hts (by simp [respelled, Lexer.ofString]) (.inl rfl) hglued
  have hcompile := Respelling.compile_eq_rename (ρ := .exchange v k hv hk) hopcode hts hus
    (Respelling.exchange_texts hv hk hrespelt hfree) hc hdiagnostics hheadings
  refine ⟨_, hcompile, hdiagnostics, ?_⟩
  -- A name that is in no text shows that the name of the type is not in the unit.
  obtain ⟨w, hw⟩ := Infinite.exists_notMem_finset (k.spelling :: "null" ::
    (ts.map (·.lexeme) ++ (Builder.new o).opcodes.names ++ c.unit.headings)).toFinset
  simp only [List.mem_toFinset, List.mem_cons, List.mem_append, not_or] at hw
  obtain ⟨hspelling, hnull, ⟨hunused, hnames⟩, hheadings'⟩ := hw
  have hfixed := rename_exchange hk hts hfree hnull hunused (by simpa [OpcodeTable.contains])
    hheadings' hc hdiagnostics
  refine FixedAlike.compiled (fun n hn => ?_) c hfixed
  have hne : n ≠ k.spelling := by
    rintro rfl
    rw [Equiv.swap_apply_right] at hn
    exact hspelling hn
  by_cases hnv : n = v
  · rw [if_pos hnv, hnv]
    exact Equiv.swap_apply_left _ _
  · rw [if_neg hnv]
    exact Equiv.swap_apply_of_ne_of_ne hnv hne

/-- A local of type `int` is called `int`. -/
theorem compile_respelled_local : ∃ c c',
    compile ".sub main\n.local int n\n$I0 = n - 1\n.end\n" .standard = .ok c ∧
      compile ".sub main\n.local int int\n$I0 = int - 1\n.end\n" .standard = .ok c' ∧
      c'.diagnostics = [] ∧ c' = c.rename fun m => if m = "n" then "int" else m := by
  have htest : compiles ".sub main\n.local int n\n$I0 = n - 1\n.end\n" (fun c =>
      c.diagnostics.isEmpty && !c.unit.headings.contains "n") = true := by
    decide +kernel
  obtain ⟨c, hc, htest⟩ := exists_of_compiles htest
  obtain ⟨hnone, hheadings⟩ := Bool.and_eq_true_iff.mp htest
  replace hnone := List.isEmpty_iff.mp hnone
  replace hheadings : "n" ∉ c.unit.headings := by simpa using hheadings
  have hrespelled : respelled "n" .int ".sub main\n.local int n\n$I0 = n - 1\n.end\n" =
      ".sub main\n.local int int\n$I0 = int - 1\n.end\n" := by
    decide +kernel
  obtain ⟨c', hc', hrename⟩ := compile_respelled (v := "n") (k := .int) (by decide) (by decide) rfl
    hc hnone (by decide +kernel) hheadings (by decide +kernel) (by decide +kernel)
  rw [hrespelled] at hc'
  exact ⟨c, c', hc, hc', hrename⟩

/-- Without the blank, `int-1` is `int` and a number. -/
example : compiles ".sub main\n.local int n\n$I0 = n-1\n.end\n" (·.isClean) = true ∧
    compiles ".sub main\n.local int int\n$I0 = int-1\n.end\n" (·.diagnostics.isEmpty) = false := by
  decide +kernel

end PirFrontend
