import PirFrontend.Proofs.Lines

/-!
Two runs that build alike from tokens that are alike. How far the units, the lines and the problems
of the two are to correspond is a parameter. Neither run fails unless more problems are reported
than are tolerated.
-/
namespace PirFrontend

open PirFrontend.Parser (Place Block)

/-! Likenesses -/

namespace CompilationUnit

/-- Two units with the same constants, in the same namespace. -/
structure SameNames (u v : CompilationUnit) : Prop where
  constants : u.constants = v.constants
  globalConstants : u.globalConstants = v.globalConstants
  namespaceKey : u.namespaceKey = v.namespaceKey

/-- A change of a unit that puts these subroutines behind those that are closed. What becomes of
the names depends on the names alone. -/
structure Adds (f : CompilationUnit → CompilationUnit) (subs : List Subroutine) : Prop where
  subroutines (u) : (f u).subroutines = u.subroutines ++ subs
  names {u v} : u.SameNames v → (f u).SameNames (f v)

theorem Adds.none {f : CompilationUnit → CompilationUnit}
    (hsubs : ∀ u, (f u).subroutines = u.subroutines)
    (hnames : ∀ {u v}, u.SameNames v → (f u).SameNames (f v)) : Adds f [] :=
  ⟨fun u => (hsubs u).trans (List.append_nil _).symm, hnames⟩

theorem KeepsSubs.adds {f : CompilationUnit → CompilationUnit} (h : KeepsSubs f) : Adds f [] := by
  refine .none h.subroutines fun {u v} hnames => ⟨?_, ?_, ?_⟩
  · rw [h.constants, h.constants, hnames.constants]
  · rw [h.globalConstants, h.globalConstants, hnames.globalConstants]
  · obtain hkey | ⟨names, hkey⟩ := h.namespaceKey
    · rw [hkey, hkey, hnames.namespaceKey]
    · rw [hkey, hkey]

end CompilationUnit

/-- How the units, the lines and the problems of two builds correspond. -/
structure Likeness where
  unit : CompilationUnit → CompilationUnit → Prop
  line : Nat → Nat → Prop
  told : List Diagnostic → List Diagnostic → Prop
  names {u v} : unit u v → u.SameNames v
  change {u v f subs} : unit u v → CompilationUnit.Adds f subs → unit (f u) (f v)
  /-- Lines correspond from some place on. -/
  later {l m} (n : Nat) : line l m → line (l + n) (m + n)
  tell {ds es l m} (kind message) : told ds es → line l m →
    told (ds ++ [⟨kind, message, l⟩]) (es ++ [⟨kind, message, m⟩])

namespace Likeness

/-- The same is built, whatever is told. -/
def built : Likeness where
  unit := Eq
  line _ _ := True
  told _ _ := True
  names h := h ▸ ⟨rfl, rfl, rfl⟩
  change h _ := h ▸ rfl
  later _ _ := trivial
  tell _ _ _ _ := trivial

/-- The same is built and told, on the same lines. -/
def exact : Likeness where
  unit := Eq
  line := Eq
  told := Eq
  names h := h ▸ ⟨rfl, rfl, rfl⟩
  change h _ := h ▸ rfl
  later _ h := h ▸ rfl
  tell _ _ hds hl := hds ▸ hl ▸ rfl

/-- What is the same corresponds. -/
class Reflexive (A : Likeness) : Prop where
  unit (u) : A.unit u u
  line (l) : A.line l l
  told (ds) : A.told ds ds

instance : built.Reflexive := ⟨fun _ => rfl, fun _ => trivial, fun _ => trivial⟩

instance : exact.Reflexive := ⟨fun _ => rfl, fun _ => rfl, fun _ => rfl⟩

/-- The units correspond, whatever is told. -/
def silent (A : Likeness) : Likeness where
  unit := A.unit
  line _ _ := True
  told _ _ := True
  names := A.names
  change := A.change
  later _ _ := trivial
  tell _ _ _ _ := trivial

/-- Tokens that differ in their places only, on lines that correspond. -/
structure Tokens (A : Likeness) (t u : Token) : Prop where
  like : t.Like u
  line : A.line t.line u.line

/-- Errors with the same text, on lines that correspond. -/
structure Errors (A : Likeness) (e f : ParseError) : Prop where
  message : e.message = f.message
  line : Option.Rel A.line e.line? f.line?

theorem Tokens.refl {A : Likeness} [A.Reflexive] (t : Token) : A.Tokens t t :=
  ⟨⟨rfl, rfl⟩, Reflexive.line _⟩

theorem Errors.unexpected {A : Likeness} {t u : Token} (h : A.Tokens t u) (expected : List String) :
    A.Errors (.unexpected t expected) (.unexpected u expected) := by
  refine ⟨?_, .some h.line⟩
  have hdescribe : t.describe = u.describe := by
    unfold Token.describe
    rw [h.like.kind, h.like.lexeme]
  unfold ParseError.unexpected
  rw [hdescribe]
  rfl

end Likeness

/-- No subroutine is open, and nothing waits. -/
structure Builder.Idle (b : Builder) : Prop where
  current : b.current = none
  pendingLabel : b.pendingLabel = none
  pendingInstruction : b.pendingInstruction = none
  pendingCall : b.pendingCall = none

/-- What has to be open at a place. Instructions are begun in a body only, and outside of
subroutines nothing waits. -/
def Parser.Place.Fits : Place → Builder → Prop
  | top, b => b.Idle
  | body, b => b.current.isSome
  | block _, b => b.current.isSome ∧ b.pendingCall.isSome ∧ b.pendingInstruction = none

theorem Parser.Place.Fits.of_eq {p : Place} {b b' : Builder} (h : p.Fits b)
    (hs : b'.current = b.current) (hl : b'.pendingLabel = b.pendingLabel)
    (hi : b'.pendingInstruction = b.pendingInstruction) (hc : b'.pendingCall = b.pendingCall) :
    p.Fits b' := by
  cases p with
  | top =>
    exact ⟨hs.trans h.current, hl.trans h.pendingLabel, hi.trans h.pendingInstruction,
      hc.trans h.pendingCall⟩
  | body => exact (congrArg Option.isSome hs).trans h
  | block k =>
    exact ⟨(congrArg Option.isSome hs).trans h.1, (congrArg Option.isSome hc).trans h.2.1,
      hi.trans h.2.2⟩

namespace Builder

/-- The builder with another unit and other problems, charged to another line. -/
def retold (b : Builder) (u : CompilationUnit) (ds : List Diagnostic) (line : Nat) : Builder :=
  { b with unit := u, diagnostics := ds, line }

/-- Two builders at a place differ as far as the likeness allows, and neither was given up. -/
structure Twin (A : Likeness) (o : BuildOptions) (p : Place) (b c : Builder) : Prop where
  options : b.options = o
  opcodes : b.opcodes = (new o).opcodes
  same : ∃ u ds line, c = b.retold u ds line ∧ A.unit b.unit u ∧ A.told b.diagnostics ds ∧
    A.line b.line line
  left : b.Ongoing
  right : c.Ongoing
  fits : p.Fits b

/-- One problem more was reported than is tolerated. -/
def Exceeded (o : BuildOptions) (f : Fatal) (b : Builder) : Prop :=
  f = .tooManyErrors b.diagnostics.length ∧ b.diagnostics.length = o.maxErrors + 1

theorem exceeded_record {b : Builder} {kind : DiagnosticKind} {message : String}
    (hb : b.Ongoing) (hr : (b.record kind message).overfull = true) :
    Exceeded b.options (b.record kind message).tooManyErrors
      { b.record kind message with aborted := true } := by
  have hfew : ¬b.options.maxErrors < b.diagnostics.length := of_decide_eq_false hb.tolerated
  have hmany : b.options.maxErrors < (b.record kind message).diagnostics.length :=
    of_decide_eq_true hr
  have hlength : (b.record kind message).diagnostics.length = b.diagnostics.length + 1 :=
    List.length_append
  refine ⟨rfl, ?_⟩
  dsimp only
  omega

/-- Where building goes on, a report is one problem too many or goes through. -/
theorem Ongoing.report {b : Builder} (hb : b.Ongoing) (kind : DiagnosticKind) (message : String) :
    (∃ f c, (Build.report kind message).run b = (.error f, c) ∧ Exceeded b.options f c) ∨
    (b.record kind message).overfull = false ∧
      (Build.report kind message).run b = (.ok (), b.record kind message) := by
  obtain ⟨ha, -⟩ | ⟨-, hmany, hrun⟩ | ⟨-, hfew, hrun⟩ := Build.report_cases kind message b
  · rw [hb.aborted] at ha
    cases ha
  · exact .inl ⟨_, _, hrun, exceeded_record hb hmany⟩
  · exact .inr ⟨hfew, hrun⟩

namespace Twin

variable {A : Likeness} {o : BuildOptions} {p q : Place} {b c : Builder}

theorem options_right (h : Twin A o p b c) : c.options = o := by
  obtain ⟨u, ds, l, rfl, -⟩ := h.same
  exact h.options

theorem fits_right (h : Twin A o p b c) : p.Fits c := by
  obtain ⟨u, ds, l, rfl, -⟩ := h.same
  exact h.fits.of_eq rfl rfl rfl rfl

theorem current (h : Twin A o p b c) : c.current = b.current := by
  obtain ⟨u, ds, l, rfl, -⟩ := h.same
  rfl

theorem line (h : Twin A o p b c) : A.line b.line c.line := by
  obtain ⟨u, ds, l, rfl, -, -, hl⟩ := h.same
  exact hl

theorem names (h : Twin A o p b c) : b.unit.SameNames c.unit := by
  obtain ⟨u, ds, l, rfl, hu, -⟩ := h.same
  exact A.names hu

/-- Builders that are alike in all respects are so, whatever is told. -/
theorem silent (h : Twin A o p b c) : Twin A.silent o p b c := by
  obtain ⟨u, ds, l, hc, hu, -⟩ := h.same
  exact ⟨h.options, h.opcodes, ⟨u, ds, l, hc, hu, trivial, trivial⟩, h.left, h.right, h.fits⟩

/-- A change that looks at no problem is made on both sides. -/
theorem change (h : Twin A o p b c) {f : Builder → Builder}
    {g : CompilationUnit → CompilationUnit} {subs : List Subroutine}
    (hf : ∀ u ds line, f (b.retold u ds line) = (f b).retold (g u) ds line)
    (hg : CompilationUnit.Adds g subs) (hsame : b.SameProblems (f b))
    (hops : (f b).opcodes = b.opcodes) (hq : q.Fits (f b)) : Twin A o q (f b) (f c) := by
  obtain ⟨u, ds, l, rfl, hu, hds, hl⟩ := h.same
  have hb : f b = (f b).retold (g b.unit) b.diagnostics b.line := hf b.unit b.diagnostics b.line
  have hunit : (f b).unit = g b.unit := by
    rw [hb]
    rfl
  have hline : (f b).line = b.line := by
    rw [hb]
    rfl
  have hright : (b.retold u ds l).SameProblems (f (b.retold u ds l)) :=
    hf u ds l ▸ ⟨hsame.options, rfl, hsame.aborted⟩
  refine ⟨hsame.options.trans h.options, hops.trans h.opcodes,
    ⟨g u, ds, l, hf u ds l, ?_, ?_, ?_⟩, h.left.of_same hsame, h.right.of_same hright, hq⟩
  · exact hunit ▸ A.change hu hg
  · exact hsame.diagnostics ▸ hds
  · exact hline ▸ hl

/-- A change that does not concern the unit, either. -/
theorem update (h : Twin A o p b c) {f : Builder → Builder}
    (hf : ∀ u ds line, f (b.retold u ds line) = (f b).retold u ds line)
    (hsame : b.SameProblems (f b)) (hops : (f b).opcodes = b.opcodes) (hq : q.Fits (f b)) :
    Twin A o q (f b) (f c) :=
  h.change (g := id) hf (.none (fun _ => rfl) id) hsame hops hq

theorem setLines (h : Twin A o p b c) {l m : Nat} (hl : A.line l m) :
    Twin A o p (b.setLine l) (c.setLine m) := by
  obtain ⟨u, ds, l', rfl, hu, hds, -⟩ := h.same
  exact ⟨h.options, h.opcodes, ⟨u, ds, m, rfl, hu, hds, hl⟩, h.left.of_same ⟨rfl, rfl, rfl⟩,
    h.right.of_same ⟨rfl, rfl, rfl⟩, h.fits.of_eq rfl rfl rfl rfl⟩

/-- Problems are added on both sides. -/
theorem reported (h : Twin A o p b c) {ds es : List Diagnostic}
    (htold : A.told (b.diagnostics ++ ds) (c.diagnostics ++ es))
    (hb : (b.reported ds).overfull = false) (hc : (c.reported es).overfull = false) :
    Twin A o p (b.reported ds) (c.reported es) := by
  obtain ⟨u, _, l, rfl, hu, -, hl⟩ := h.same
  exact ⟨h.options, h.opcodes, ⟨u, _, l, rfl, hu, htold, hl⟩, ⟨h.left.aborted, hb⟩,
    ⟨h.right.aborted, hc⟩, h.fits.of_eq rfl rfl rfl rfl⟩

theorem reported_left (h : Twin A o p b c) {ds : List Diagnostic}
    (htold : A.told (b.diagnostics ++ ds) c.diagnostics) (hb : (b.reported ds).overfull = false) :
    Twin A o p (b.reported ds) c := by
  have htwin : Twin A o p (b.reported ds) (c.reported []) :=
    h.reported (by rwa [List.append_nil]) hb (by simpa using h.right.tolerated)
  rwa [reported_nil] at htwin

theorem reported_right (h : Twin A o p b c) {es : List Diagnostic}
    (htold : A.told b.diagnostics (c.diagnostics ++ es)) (hc : (c.reported es).overfull = false) :
    Twin A o p b (c.reported es) := by
  have htwin : Twin A o p (b.reported []) (c.reported es) :=
    h.reported (by rwa [List.append_nil]) (by simpa using h.left.tolerated) hc
  rwa [reported_nil] at htwin

/-- The same is told by both. -/
theorem told_record (h : Twin A o p b c) (kind : DiagnosticKind) (message : String) :
    A.told (b.record kind message).diagnostics (c.record kind message).diagnostics := by
  obtain ⟨u, ds, l, rfl, -, hds, hl⟩ := h.same
  exact A.tell kind message hds hl

end Twin
end Builder

/-- What is left of two texts where lines begin: the same tokens, up to where the texts differ. -/
structure Textual (A : Likeness) (start askew : List Step → List Step → Prop) : Prop where
  fault {f g L M} : start (.error f :: L) (.error g :: M) → start L M
  cases {L M} : start L M → InLine A.Tokens A.Errors start L M ∨ askew L M

namespace Pairing

variable {α β : Type} {A : Likeness} {o : BuildOptions} {start askew : List Step → List Step → Prop}
  {p q : Place} {b c : Builder}

/-- Two runs that build alike from tokens that are alike. -/
def twins (A : Likeness) (o : BuildOptions) (start askew : List Step → List Step → Prop) :
    Pairing where
  tok := A.Tokens
  err := A.Errors
  start := start
  askew := askew
  rel := Builder.Twin A o
  past := Builder.Twin A o
  stopped _ _ _ _ := False
  aside := Builder.Exceeded o
  stray := Builder.Twin A.silent o

theorem twins_astray_left (h : b.Twin A.silent o p c) (kind : DiagnosticKind) (message : String) :
    match (Build.report kind message).run b with
    | (.ok _, b') => b'.Twin A.silent o p c
    | (.error f, b') => Builder.Exceeded o f b' := by
  obtain ⟨f, b', hrun, hexceeded⟩ | ⟨hfew, hrun⟩ := h.left.report kind message
  · rw [hrun]
    exact h.options ▸ hexceeded
  · rw [hrun]
    have htwin : (b.reported [⟨kind, message, b.line⟩]).Twin A.silent o p c :=
      h.reported_left trivial hfew
    exact htwin

theorem twins_astray_right (h : b.Twin A.silent o p c) (kind : DiagnosticKind) (message : String) :
    match (Build.report kind message).run c with
    | (.ok _, c') => b.Twin A.silent o p c'
    | (.error f, c') => Builder.Exceeded o f c' := by
  obtain ⟨f, c', hrun, hexceeded⟩ | ⟨hfew, hrun⟩ := h.right.report kind message
  · rw [hrun]
    exact h.options_right ▸ hexceeded
  · rw [hrun]
    have htwin : b.Twin A.silent o p (c.reported [⟨kind, message, c.line⟩]) :=
      h.reported_right trivial hfew
    exact htwin

/-- Both builders tell something, which is one problem too many or corresponds. -/
theorem twins_report (h : b.Twin A o p c) {kind kind' : DiagnosticKind} {message message' : String}
    (htold : A.told (b.record kind message).diagnostics (c.record kind' message').diagnostics) :
    (twins A o start askew).Agree (fun _ => (twins A o start askew).rel p)
      ((Build.report kind message).run b) ((Build.report kind' message').run c) := by
  obtain ⟨f, b', hrun, hexceeded⟩ | ⟨hfew, hrun⟩ := h.left.report kind message
  · rw [hrun]
    exact .left (h.options ▸ hexceeded)
  · obtain ⟨f, c', hrun', hexceeded⟩ | ⟨hfew', hrun'⟩ := h.right.report kind' message'
    · rw [hrun']
      exact .right (h.options_right ▸ hexceeded)
    · rw [hrun, hrun']
      have htwin : (b.reported [⟨kind, message, b.line⟩]).Twin A o p
          (c.reported [⟨kind', message', c.line⟩]) := h.reported htold hfew hfew'
      exact .ok htwin

theorem twins_complain (h : b.Twin A o p c) (kind : DiagnosticKind) (message : String) :
    (twins A o start askew).Keeps p (Build.report kind message) b c :=
  twins_report h (h.told_record kind message)

theorem twins_mend (h : b.Twin A o p c) {e e' : ParseError} (he : A.Errors e e') :
    (twins A o start askew).Agree (fun _ => (twins A o start askew).rel p)
      ((Build.mend e).run b) ((Build.mend e').run c) := by
  have hline : A.line (e.line?.getD b.line) (e'.line?.getD c.line) := by
    have hlines := he.line
    generalize e.line? = l at hlines ⊢
    generalize e'.line? = m at hlines ⊢
    cases hlines with
    | none => exact h.line
    | some hl => exact hl
  rw [Build.run_mend, Build.run_mend, he.message]
  exact twins_complain (h.setLines hline) _ _

theorem twins_emit (h : b.Twin A o .body c) (s : Statement) :
    (twins A o start askew).Keeps .body (Build.emit s) b c := by
  unfold Keeps
  rw [Build.run_emit_appended h.left.aborted h.fits,
    Build.run_emit_appended h.right.aborted h.fits_right]
  have hopen : (b.appended s).current.isSome := by
    simpa [Place.Fits, Builder.appended, Builder.modifySub] using h.fits
  exact .ok (h.update (f := (·.appended s)) (fun _ _ _ => rfl) ⟨rfl, rfl, rfl⟩ rfl hopen)

theorem fits_modifySub {f : Subroutine → Subroutine} (h : p.Fits b) : p.Fits (b.modifySub f) := by
  cases p with
  | top => exact ⟨congrArg (Option.map f) h.current, h.pendingLabel, h.pendingInstruction,
      h.pendingCall⟩
  | body => simpa [Place.Fits, Builder.modifySub] using h
  | block k => simpa [Place.Fits, Builder.modifySub] using h

theorem twins_modifySub (h : b.Twin A o p c) (f : Subroutine → Subroutine) :
    (b.modifySub f).Twin A o p (c.modifySub f) :=
  h.update (f := (·.modifySub f)) (fun _ _ _ => rfl) ⟨rfl, rfl, rfl⟩ rfl (fits_modifySub h.fits)

/-- Where a subroutine is open, it is asked for alike. -/
theorem twins_currentSub (h : b.Twin A o p c) (hp : p ≠ .top) {f : Subroutine → Build α}
    {Q : α → Builder → Builder → Prop}
    (hf : ∀ s, b.current = some s → (twins A o start askew).Agree Q ((f s).run b) ((f s).run c)) :
    (twins A o start askew).Agree Q ((do f (← Build.currentSub)).run b)
      ((do f (← Build.currentSub)).run c) := by
  have hopen : b.current.isSome := by
    cases p with
    | top => exact absurd rfl hp
    | body => exact h.fits
    | block k => exact h.fits.1
  obtain ⟨s, hs⟩ := Option.isSome_iff_exists.1 hopen
  have hc : c.current = some s := h.current.trans hs
  rw [run_bind_ok (Build.run_currentSub hs), run_bind_ok (Build.run_currentSub hc)]
  exact hf s hs

theorem twins_declareSymbol (h : b.Twin A o p c) (hp : p ≠ .top) (name : String) (type : ValueType)
    (uniqueReg : Bool) (attach : Symbol → Subroutine → Subroutine) :
    (twins A o start askew).Keeps p (Build.declareSymbol name type uniqueReg attach) b c := by
  apply twins_currentSub h hp
  intro s _
  split
  next symbol table _ =>
    exact .ok (twins_modifySub h fun s => attach symbol { s with symbols := table })
  next => exact twins_complain h _ _

/-- Something is entered in the unit, depending on its names. -/
theorem twins_enter (h : b.Twin A o p c) {f : CompilationUnit → CompilationUnit}
    {subs : List Subroutine} (hf : CompilationUnit.Adds f subs) :
    Builder.Twin A o p { b with unit := f b.unit } { c with unit := f c.unit } :=
  h.change (f := fun b => { b with unit := f b.unit }) (fun _ _ _ => rfl) hf ⟨rfl, rfl, rfl⟩ rfl
    (h.fits.of_eq rfl rfl rfl rfl)

theorem twins_declareConstant (h : b.Twin A o p c) (name : String) (value : ConstantValue) :
    (twins A o start askew).Keeps p (Build.declareConstant name value) b c := by
  unfold Keeps
  cases hs : b.current with
  | some s =>
    rw [Build.run_declareConstant_sub hs, Build.run_declareConstant_sub (h.current.trans hs)]
    split
    · exact twins_complain h _ _
    · exact .ok (twins_modifySub h fun s =>
        { s with constants := s.constants.insert name (.named name value) })
  | none =>
    rw [Build.run_declareConstant_file hs, Build.run_declareConstant_file (h.current.trans hs),
      show c.unit.constants.contains name = b.unit.constants.contains name by
        rw [h.names.constants]]
    split
    · exact twins_complain h _ _
    · have hadds : CompilationUnit.Adds
          (fun u => { u with constants := u.constants.insert name (.named name value) }) [] :=
        .none (fun _ => rfl) fun hn => ⟨by rw [hn.constants], hn.globalConstants, hn.namespaceKey⟩
      exact .ok (twins_enter h hadds)

theorem twins_declareGlobalConstant (h : b.Twin A o p c) (name : String) (value : ConstantValue) :
    (twins A o start askew).Keeps p (Build.declareGlobalConstant name value) b c := by
  unfold Keeps
  rw [Build.run_declareGlobalConstant, Build.run_declareGlobalConstant,
    show c.unit.globalConstants.contains name = b.unit.globalConstants.contains name by
      rw [h.names.globalConstants]]
  split
  · exact twins_complain h _ _
  · have hadds : CompilationUnit.Adds (fun u =>
        { u with globalConstants := u.globalConstants.insert name (.named name value) }) [] :=
      .none (fun _ => rfl) fun hn => ⟨hn.constants, by rw [hn.globalConstants], hn.namespaceKey⟩
    exact .ok (twins_enter h hadds)

theorem twins_setLabel (h : b.Twin A o .body c) (name : String) :
    (twins A o start askew).Keeps .body (Build.setLabel name) b c := by
  apply twins_currentSub h nofun
  intro s _
  split
  · exact twins_complain h _ _
  · refine .ok (h.update (f := fun b =>
      { b.modifySub fun s => { s with labels := s.labels.insert name s.statements.length } with
        pendingLabel := some name }) (fun _ _ _ => rfl) ⟨rfl, rfl, rfl⟩ rfl ?_)
    exact fits_modifySub (p := .body) h.fits

theorem twins_changeCall {k : Block} (h : b.Twin A o (.block k) c)
    (f : PendingCall → PendingCall) :
    (twins A o start askew).Keeps (.block k) (Build.changeCall f) b c := by
  obtain ⟨call, hcall⟩ := Option.isSome_iff_exists.1 h.fits.2.1
  have hright : c.pendingCall = some call := by
    obtain ⟨u, ds, l, rfl, -⟩ := h.same
    exact hcall
  unfold Keeps
  rw [Build.run_changeCall hcall, Build.run_changeCall hright]
  exact .ok (h.update (f := fun b => { b with pendingCall := some (f call) }) (fun _ _ _ => rfl)
    ⟨rfl, rfl, rfl⟩ rfl ⟨h.fits.1, rfl, h.fits.2.2⟩)

theorem twins_endCall {k : Block} (h : b.Twin A o (.block k) c) :
    (twins A o start askew).Agree (fun _ => (twins A o start askew).rel .body)
      (Build.endCall.run b) (Build.endCall.run c) := by
  obtain ⟨call, hcall⟩ := Option.isSome_iff_exists.1 h.fits.2.1
  have h' : Builder.Twin A o .body { b with pendingCall := none } { c with pendingCall := none } :=
    h.update (f := fun b => { b with pendingCall := none }) (fun _ _ _ => rfl) ⟨rfl, rfl, rfl⟩ rfl
      h.fits.1
  obtain ⟨u, ds, l, rfl, -⟩ := h.same
  rw [Build.run_endCall hcall, Build.run_endCall (b := b.retold u ds l) hcall]
  split
  · exact twins_emit h' _
  · exact twins_complain h' _ _

theorem twins_beginBlock (h : b.Twin A o .body c) (hp : b.pendingInstruction = none) (k : Block) :
    (k.beginning b).Twin A o (.block k) (k.beginning c) := by
  cases k with
  | call =>
    exact h.update (f := Builder.beginCall) (fun _ _ _ => rfl) ⟨rfl, rfl, rfl⟩ rfl ⟨h.fits, rfl, hp⟩
  | returns =>
    exact h.update (f := (·.beginReturn .returnValues)) (fun _ _ _ => rfl) ⟨rfl, rfl, rfl⟩ rfl
      ⟨h.fits, rfl, hp⟩
  | yields =>
    exact h.update (f := (·.beginReturn .yieldValues)) (fun _ _ _ => rfl) ⟨rfl, rfl, rfl⟩ rfl
      ⟨h.fits, rfl, hp⟩

theorem fits_drop (h : p.Fits b) : p.Fits b.dropInstruction := by
  cases p with
  | top => exact ⟨h.current, h.pendingLabel, rfl, h.pendingCall⟩
  | body => exact h
  | block k => exact ⟨h.1, h.2.1, rfl⟩

theorem twins_drop (h : b.Twin A o p c) : b.dropInstruction.Twin A o p c.dropInstruction :=
  h.update (fun _ _ _ => rfl) ⟨rfl, rfl, rfl⟩ rfl (fits_drop h.fits)

theorem fits_closeSub (h : p.Fits b) : Place.top.Fits b.closeSub.2 := by
  unfold Builder.closeSub
  cases hb : b.current with
  | some s => exact ⟨rfl, rfl, rfl, rfl⟩
  | none =>
    cases p with
    | top => exact h
    | body => exact absurd h (by simp [Place.Fits, hb])
    | block k => exact absurd h.1 (by simp [hb])

theorem twins_closeSub (h : b.Twin A o p c) : b.closeSub.2.Twin A o .top c.closeSub.2 := by
  cases hs : b.current with
  | none =>
    have hidle := fits_closeSub h.fits
    unfold Builder.closeSub at hidle ⊢
    rw [hs] at hidle
    rw [hs, h.current.trans hs]
    exact ⟨h.options, h.opcodes, h.same, h.left, h.right, hidle⟩
  | some s =>
    have hadds : CompilationUnit.Adds
        (fun u => { u with subroutines := u.subroutines ++ [s] }) [s] :=
      ⟨fun _ => rfl, fun hn => ⟨hn.constants, hn.globalConstants, hn.namespaceKey⟩⟩
    unfold Builder.closeSub
    rw [hs, h.current.trans hs]
    exact h.change (f := fun b => { b with
        unit := { b.unit with subroutines := b.unit.subroutines ++ [s] }
        current := none
        pendingLabel := none
        pendingInstruction := none
        pendingCall := none }) (fun _ _ _ => rfl) hadds ⟨rfl, rfl, rfl⟩ rfl ⟨rfl, rfl, rfl, rfl⟩

theorem twins_openSub (h : b.Twin A o .top c) (name : String) :
    (b.openSub name).2.Twin A o .body (c.openSub name).2 := by
  have hclosed := twins_closeSub h
  unfold Builder.openSub
  dsimp only
  rw [← hclosed.names.namespaceKey]
  exact hclosed.update (f := fun c => { c with
    current := some { Subroutine.empty name with namespaceKey := b.closeSub.2.unit.namespaceKey } })
    (fun _ _ _ => rfl) ⟨rfl, rfl, rfl⟩ rfl rfl

theorem twins_alike (h : b.Twin A o p c) : b.Alike c := by
  have hnames := h.names
  obtain ⟨u, ds, l, rfl, -⟩ := h.same
  exact ⟨rfl, hnames.constants, hnames.globalConstants, rfl, rfl, rfl⟩

instance : (twins A o start askew).Readable where
  like h := h.like
  unexpected expected h := .unexpected h expected
  endOfInput _ := ⟨rfl, .none⟩
  alike := twins_alike
  report message _ h := twins_complain h _ message
  passed h := h

theorem twins_glimpse (hst : Textual A start askew) {L M : List Step} (h : start L M) :
    (twins A o start askew).Glimpse L M ∨ askew L M := by
  obtain hL | ha := hst.cases h
  · exact .inl (glimpse_mid hL h (·.like) hst.fault)
  · exact .inr ha

theorem twins_buildable (hst : Textual A start askew) : (twins A o start askew).Buildable where
  glimpse := twins_glimpse hst
  strays h := h.silent
  astray_left kind message _ h := twins_astray_left h kind message
  astray_right kind message _ h := twins_astray_right h kind message
  instruction i h := h.update (f := fun b => { b with pendingInstruction := i }) (fun _ _ _ => rfl)
    ⟨rfl, rfl, rfl⟩ rfl h.fits
  emit h _ := twins_emit h _
  beginBlock k h hp := twins_beginBlock h hp k
  declareConstant name value h := twins_declareConstant h name value
  declareGlobalConstant name value h := twins_declareGlobalConstant h name value
  declareLocal name type uniqueReg hp h := twins_declareSymbol h hp name type uniqueReg _
  addParameter type name _ _ _ h :=
    twins_declareSymbol h nofun name type _ _
  addLexical _ h _ _ := twins_currentSub h nofun fun _ _ => .ok (twins_modifySub h _)

theorem twins_lawful (hst : Textual A start askew) : (twins A o start askew).Lawful where
  toBuildable := twins_buildable hst
  next h := h
  line htok h := h.setLines htok.line
  malformed message h := twins_complain h _ message
  mend he h := twins_mend h he
  drop := twins_drop
  setLabel name h := twins_setLabel h name
  leaveBlock h := h.update (f := id) (fun _ _ _ => rfl) ⟨rfl, rfl, rfl⟩ rfl h.fits.1
  changeCall h _ _ := twins_changeCall h _
  endCall := twins_endCall
  openSub name h := twins_openSub h name
  closeSub := twins_closeSub
  modifySub h _ := twins_modifySub h _
  modifyUnit h hf := twins_enter h hf.adds

theorem twins_continuing (hst : Textual A start askew) :
    (twins A o start askew).Continuing where
  toLawful := twins_lawful hst
  start_cases := hst.cases

end Pairing
end PirFrontend
