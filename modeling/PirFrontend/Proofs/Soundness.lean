import PirFrontend.Proofs.Outcomes

/-!
What a clean unit is made of. If nothing was reported, every target stands for a symbol of its own
subroutine, with the type and the register that the symbol has there, or for a register; an index
belongs to a pmc, a lexical is one, and a method is a string or something that can name one.

While a subroutine is open its table of symbols only grows, so what holds of a target when it is
made holds when the subroutine is closed.
-/
namespace PirFrontend

open PirFrontend.Parser (Place Block)

/-! Where targets occur -/

mutual

/-- The targets that occur in a target: itself and those in its key. -/
def Target.targets : Target → List Target
  | ⟨storage, none, flags, namedAs, lexName⟩ => [⟨storage, none, flags, namedAs, lexName⟩]
  | ⟨storage, some key, flags, namedAs, lexName⟩ =>
    ⟨storage, some key, flags, namedAs, lexName⟩ :: key.targets

/-- The targets that occur in a key. -/
def Key.targets : Key → List Target
  | ⟨first, more⟩ => first.targets ++ Key.targetsMore more

/-- The targets that occur in the expressions behind the first. -/
def Key.targetsMore : List Expression → List Target
  | [] => []
  | e :: rest => e.targets ++ Key.targetsMore rest

/-- The targets that occur in an operand, at any depth. -/
def Expression.targets : Expression → List Target
  | .target t => t.targets
  | .constant _ => []
  | .key k => k.targets
  | .label _ => []

end

/-- The targets that occur anywhere in an invocation. -/
def Invocation.targets (i : Invocation) : List Target :=
  i.callee.elim [] Expression.targets ++ i.method.elim [] Expression.targets ++
    i.retcont.elim [] Target.targets ++ i.arguments.flatMap (·.value.targets) ++
    i.results.flatMap Target.targets

/-- The targets that occur anywhere in a statement. -/
def Statement.targets : Statement → List Target
  | .instruction i => i.operands.flatMap Expression.targets
  | .invocation i => i.targets

/-- The targets that occur in front of the statements of a subroutine. -/
def Subroutine.headTargets (s : Subroutine) : List Target :=
  s.namespaceKey.elim [] Key.targets ++ s.parameters.flatMap (·.target.targets) ++
    s.lexicals.flatMap (·.target.targets)

/-- The targets that occur anywhere in a subroutine. -/
def Subroutine.targets (s : Subroutine) : List Target :=
  s.headTargets ++ s.statements.flatMap Statement.targets

theorem Target.targets_eq (t : Target) : t.targets = t :: t.key.elim [] Key.targets := by
  obtain ⟨storage, key, flags, namedAs, lexName⟩ := t
  cases key <;> rw [Target.targets] <;> rfl

theorem Target.targets_ofSymbol (s : Symbol) : (ofSymbol s).targets = [ofSymbol s] :=
  targets_eq _

theorem Key.mem_targetsMore {more : List Expression} {t : Target} (h : t ∈ targetsMore more) :
    ∃ e ∈ more, t ∈ e.targets := by
  induction more with
  | nil =>
    rw [targetsMore] at h
    cases h
  | cons e rest ih =>
    rw [targetsMore, List.mem_append] at h
    obtain h | h := h
    · exact ⟨e, List.mem_cons_self, h⟩
    · obtain ⟨e', he', ht⟩ := ih h
      exact ⟨e', List.mem_cons_of_mem _ he', ht⟩

/-- A key of strings holds no target. -/
theorem Key.targets_ofList?_string (names : List String) :
    (ofList? (names.map .string)).elim [] targets = [] := by
  have hstring (name : String) : (Expression.string name).targets = [] := by
    rw [Expression.string, Expression.targets]
  cases names with
  | nil => rfl
  | cons name names =>
    show targets ⟨.string name, names.map .string⟩ = []
    rw [targets, hstring, List.nil_append, List.eq_nil_iff_forall_not_mem]
    intro t ht
    obtain ⟨e, he, ht⟩ := mem_targetsMore ht
    obtain ⟨name, -, rfl⟩ := List.mem_map.mp he
    rw [hstring] at ht
    cases ht

/-! Sound code -/

/-- A target that is named has the type and the register that the table gives for its name. -/
def Target.DeclaredIn (table : SymbolTable) (t : Target) : Prop :=
  ∀ name type register, t.storage = .symbol name type register →
    ∃ s, table.lookup name = some s ∧ s.type = type ∧ s.register = register

/-- A target that is declared, and a pmc if it has an index. -/
structure Target.Sound (table : SymbolTable) (t : Target) : Prop where
  declared : t.DeclaredIn table
  keyed : t.key.isSome → t.type = .pmc

/-- All targets in an operand are sound. -/
def Expression.Sound (table : SymbolTable) (e : Expression) : Prop :=
  ∀ t ∈ e.targets, t.Sound table

/-- What can be the method of a call: a string, or a target that may hold a method or its name. -/
def Expression.IsMethod (e : Expression) : Prop :=
  (∃ text, e = .string text) ∨ ∃ t, e = .target t ∧ (t.type = .pmc ∨ t.type = .string)

/-- All targets in an invocation are sound, and its method can be one. -/
structure Invocation.Sound (table : SymbolTable) (i : Invocation) : Prop where
  callee : ∀ e ∈ i.callee, e.Sound table
  method : ∀ e ∈ i.method, e.IsMethod ∧ e.Sound table
  retcont : ∀ t ∈ i.retcont, (Expression.target t).Sound table
  arguments : ∀ a ∈ i.arguments, a.value.Sound table
  results : ∀ t ∈ i.results, (Expression.target t).Sound table

/-- The statement tests a named pmc constant. The name stands there as a pmc without a register,
and the subroutine, the file or all files have a constant under it. -/
def Statement.TestsConstant (u : CompilationUnit) (s : Subroutine) (st : Statement) : Prop :=
  ∃ (p : Polarity) (name label : String) (front : Option String) (c : Constant),
    st = .instruction { p.variableBranch false (.ofSymbol (.placeholder name .pmc)) label with
      label := front } ∧
    c.type = .pmc ∧ (s.constants.get? name = some c ∨ u.constants.get? name = some c ∨
      u.globalConstants.get? name = some c)

/-- A statement of a subroutine all whose targets are sound, but for a constant that it tests. -/
inductive Statement.Sound (u : CompilationUnit) (s : Subroutine) : Statement → Prop
  | instruction {i : Instruction} : (∀ e ∈ i.operands, e.Sound s.symbols) →
      Sound u s (.instruction i)
  | constantTest {st : Statement} : st.TestsConstant u s → Sound u s st
  | invocation {i : Invocation} : i.Sound s.symbols → Sound u s (.invocation i)

/-- A subroutine all whose targets are sound. -/
structure Subroutine.Sound (u : CompilationUnit) (s : Subroutine) : Prop where
  namespaceKey : s.namespaceKey.elim [] Key.targets = []
  parameters : ∀ p ∈ s.parameters, (Expression.target p.target).Sound s.symbols
  lexicals : ∀ l ∈ s.lexicals, l.target.type = .pmc ∧ (Expression.target l.target).Sound s.symbols
  statements : ∀ st ∈ s.statements, st.Sound u s

namespace Target

variable {table table' : SymbolTable} {t t' : Target}

theorem Sound.mono (h : t.Sound table) (hwithin : table.Within table') : t.Sound table' := by
  refine ⟨?_, h.keyed⟩
  intro name type register hstorage
  obtain ⟨s, hs, hsame⟩ := h.declared name type register hstorage
  exact ⟨s, hwithin name s hs, hsame⟩

theorem sound_ofSymbol {name : String} {s : Symbol} (h : table.lookup name = some s) :
    (Expression.target (ofSymbol s)).Sound table := by
  intro t ht
  rw [Expression.targets, targets_ofSymbol] at ht
  obtain rfl := List.mem_singleton.mp ht
  refine ⟨?_, nofun⟩
  rintro _ _ _ ⟨⟩
  exact ⟨s, by rwa [SymbolTable.name_of_lookup h], rfl, rfl⟩

/-- Flags and names do not matter. -/
theorem sound_congr (h : (Expression.target t).Sound table) (hstorage : t'.storage = t.storage)
    (hkey : t'.key = t.key) : (Expression.target t').Sound table := by
  have ht : t.Sound table := by
    apply h
    rw [Expression.targets, targets_eq]
    exact List.mem_cons_self
  intro x hx
  rw [Expression.targets, targets_eq, hkey] at hx
  obtain rfl | hx := List.mem_cons.mp hx
  · refine ⟨?_, ?_⟩
    · rw [DeclaredIn, hstorage]
      exact ht.declared
    · rw [type, hkey, hstorage]
      exact ht.keyed
  · apply h
    rw [Expression.targets, targets_eq]
    exact List.mem_cons_of_mem _ hx

end Target

theorem Expression.Sound.mono {table table' : SymbolTable} {e : Expression} (h : e.Sound table)
    (hwithin : table.Within table') : e.Sound table' := fun t ht => (h t ht).mono hwithin

namespace Invocation

variable {table table' : SymbolTable} {i : Invocation}

theorem Sound.mono (h : i.Sound table) (hwithin : table.Within table') : i.Sound table' where
  callee e he := (h.callee e he).mono hwithin
  method e he := ⟨(h.method e he).1, (h.method e he).2.mono hwithin⟩
  retcont t ht := (h.retcont t ht).mono hwithin
  arguments a ha := (h.arguments a ha).mono hwithin
  results t ht := (h.results t ht).mono hwithin

theorem sound_empty (kind : CallKind) : (empty kind).Sound table :=
  ⟨nofun, nofun, nofun, nofun, nofun⟩

theorem Sound.targets (h : i.Sound table) : ∀ t ∈ i.targets, t.Sound table := by
  intro t ht
  simp only [Invocation.targets, List.mem_append, List.mem_flatMap] at ht
  obtain (((ht | ht) | ht) | ⟨a, ha, ht⟩) | ⟨r, hr, ht⟩ := ht
  · cases hc : i.callee with
    | none => simp [hc] at ht
    | some e => exact h.callee e hc t (by simpa [hc] using ht)
  · cases hm : i.method with
    | none => simp [hm] at ht
    | some e => exact (h.method e hm).2 t (by simpa [hm] using ht)
  · cases hr : i.retcont with
    | none => simp [hr] at ht
    | some r =>
      apply h.retcont r hr
      rw [Expression.targets]
      simpa [hr] using ht
  · exact h.arguments a ha t ht
  · apply h.results r hr
    rw [Expression.targets]
    exact ht

end Invocation

section

variable {u u' : CompilationUnit} {s s' : Subroutine}

/-- What is sound stays so when more names are declared. -/
theorem Statement.Sound.mono {st : Statement} (h : st.Sound u s)
    (hsymbols : s.symbols.Within s'.symbols) (hsub : s.constants.Within s'.constants)
    (hconstants : u.constants.Within u'.constants)
    (hglobals : u.globalConstants.Within u'.globalConstants) : st.Sound u' s' := by
  cases h with
  | instruction h => exact .instruction fun e he => (h e he).mono hsymbols
  | constantTest h =>
    obtain ⟨p, name, label, front, c, hst, hc, hget⟩ := h
    refine .constantTest ⟨p, name, label, front, c, hst, hc, ?_⟩
    exact hget.imp (hsub name c) (Or.imp (hconstants name c) (hglobals name c))
  | invocation h => exact .invocation (h.mono hsymbols)

/-- Only the tables of the subroutine matter to its statements. -/
theorem Statement.Sound.same {st : Statement} (h : st.Sound u s)
    (hsymbols : s'.symbols = s.symbols) (hconstants : s'.constants = s.constants) :
    st.Sound u s' :=
  h.mono (hsymbols ▸ .refl _) (hconstants ▸ .refl _) (.refl _) (.refl _)

theorem Subroutine.Sound.mono (h : s.Sound u) (hs : s.Declares s')
    (hconstants : u.constants.Within u'.constants)
    (hglobals : u.globalConstants.Within u'.globalConstants) : s'.Sound u' := by
  have hcontent := hs.content
  simp only [content, Content.mk.injEq] at hcontent
  obtain ⟨hkey, hparameters, hlexicals, hstatements, -⟩ := hcontent
  refine ⟨hkey ▸ h.namespaceKey, ?_, ?_, ?_⟩
  · rw [hparameters]
    exact fun p hp => (h.parameters p hp).mono hs.symbols
  · rw [hlexicals]
    exact fun l hl => ⟨(h.lexicals l hl).1, (h.lexicals l hl).2.mono hs.symbols⟩
  · rw [hstatements]
    exact fun st hst => (h.statements st hst).mono hs.symbols hs.constants hconstants hglobals

theorem Statement.Sound.labelled {st : Statement} (h : st.Sound u s) (label : Option String) :
    (st.labelled label).Sound u s := by
  cases label with
  | none => exact h
  | some l =>
    cases h with
    | instruction h => exact .instruction h
    | constantTest h =>
      obtain ⟨p, name, target, front, c, rfl, hc, hget⟩ := h
      exact .constantTest ⟨p, name, target, some l, c, rfl, hc, hget⟩
    | invocation h => exact .invocation ⟨h.callee, h.method, h.retcont, h.arguments, h.results⟩

theorem Subroutine.Sound.emit (h : s.Sound u) {st : Statement} (hst : st.Sound u s) :
    Sound u { s with statements := s.statements ++ [st] } := by
  refine ⟨h.namespaceKey, h.parameters, h.lexicals, ?_⟩
  intro st' hst'
  have hsound : st'.Sound u s := by
    obtain hold | hnew := List.mem_append.mp hst'
    · exact h.statements st' hold
    · obtain rfl := List.mem_singleton.mp hnew
      exact hst
  exact hsound.same rfl rfl

theorem Subroutine.Sound.addParameter (h : s.Sound u) {name : String} {type : ValueType}
    {uniqueReg : Bool} {symbol : Symbol} {symbols : SymbolTable}
    (hok : s.symbols.declare name type uniqueReg = .ok (symbol, symbols))
    {flags : FlagSet TargetFlag} {namedAs invocantType : Option String} :
    Sound u { s with
      symbols
      parameters := s.parameters ++
        [⟨{ (Target.ofSymbol symbol).addFlags flags with namedAs }, invocantType⟩] } := by
  obtain ⟨hwithin, hlookup⟩ := SymbolTable.declare_ok hok
  refine ⟨h.namespaceKey, ?_, ?_, ?_⟩
  · intro p hp
    obtain hold | hnew := List.mem_append.mp hp
    · exact (h.parameters p hold).mono hwithin
    · obtain rfl := List.mem_singleton.mp hnew
      exact Target.sound_congr (Target.sound_ofSymbol hlookup) rfl rfl
  · exact fun l hl => ⟨(h.lexicals l hl).1, (h.lexicals l hl).2.mono hwithin⟩
  · exact fun st hst => (h.statements st hst).mono hwithin (.refl _) (.refl _) (.refl _)

theorem Subroutine.Sound.addLexical (h : s.Sound u) {t : Target} {name : String}
    (htype : t.type = .pmc) (ht : (Expression.target t).Sound s.symbols) :
    Sound u { s with
      lexicals := s.lexicals ++ [⟨name, { t with lexName := some name }⟩] } := by
  refine ⟨h.namespaceKey, h.parameters, ?_, fun st hst => (h.statements st hst).same rfl rfl⟩
  intro l hl
  obtain hold | hnew := List.mem_append.mp hl
  · exact h.lexicals l hold
  · obtain rfl := List.mem_singleton.mp hnew
    exact ⟨htype, Target.sound_congr ht rfl rfl⟩

end

/-! What is built while nothing was reported -/

namespace Builder

variable {b : Builder} {s : Subroutine}

theorem lookup_of_current (hs : b.current = some s) (name : String) :
    b.lookup name = s.symbols.lookup name := by
  rw [lookup, hs, Option.bind_some]

theorem PmcOr.pmc {t : Target} (h : b.PmcOr t) (hb : b.diagnostics = []) : t.type = .pmc :=
  h.resolve_right fun hne => hne hb

/-- What the rules for values make is sound. -/
theorem Made.sound (hb : b.diagnostics = []) (hs : b.current = some s) {e : Expression}
    (h : b.Made e) : e.Sound s.symbols := by
  -- The induction is on how the expression was made; a stand-in was reported when it was made.
  induction h with
  | constant c =>
    intro t ht
    rw [Expression.targets] at ht
    cases ht
  | register type number =>
    intro t ht
    rw [Expression.targets, Target.targets_eq] at ht
    obtain rfl := List.mem_singleton.mp ht
    exact ⟨nofun, nofun⟩
  | @symbol name symbol hlookup =>
    rw [lookup_of_current hs] at hlookup
    exact Target.sound_ofSymbol hlookup
  | standIn _ _ hne => exact absurd hb hne
  | @keyed t k _ hpmc _ iht ihk =>
    have ht : t.Sound s.symbols := by
      apply iht
      rw [Expression.targets, Target.targets_eq]
      exact List.mem_cons_self
    intro x hx
    rw [Expression.targets, Target.targets_eq] at hx
    obtain rfl | hx := List.mem_cons.mp hx
    · exact ⟨ht.declared, fun _ => hpmc.pmc hb⟩
    · apply ihk
      rw [Expression.targets]
      exact hx
  | key _ _ ihfirst ihmore =>
    intro t ht
    rw [Expression.targets, Key.targets, List.mem_append] at ht
    obtain ht | ht := ht
    · exact ihfirst t ht
    · obtain ⟨e, he, ht⟩ := Key.mem_targetsMore ht
      exact ihmore e he t ht
  | marked _ _ _ ih => exact Target.sound_congr ih rfl rfl

theorem lookupConstant_cases (hs : b.current = some s) {name : String} {c : Constant}
    (h : b.lookupConstant name = some c) : s.constants.get? name = some c ∨
      b.unit.constants.get? name = some c ∨ b.unit.globalConstants.get? name = some c := by
  rw [lookupConstant, hs, Option.bind_some, Option.or_eq_some_iff, Option.or_eq_some_iff] at h
  exact h.imp_right fun h => h.2.imp_right And.right

variable (hb : b.diagnostics = []) (hs : b.current = some s)
include hb hs

theorem MadeMethod.sound {e : Expression} (h : b.MadeMethod e) :
    e.IsMethod ∧ e.Sound s.symbols := by
  cases h with
  | string text =>
    refine ⟨.inl ⟨text, rfl⟩, fun t ht => ?_⟩
    rw [Expression.string, Expression.targets] at ht
    cases ht
  | target ht htype =>
    refine ⟨.inr ⟨_, rfl, ?_⟩, ht.sound hb hs⟩
    exact htype.imp_right fun h => h.resolve_right fun hne => hne hb

theorem MadeSource.sound {e : Expression} (h : b.MadeSource e) : e.Sound s.symbols := by
  obtain h | ⟨name, rfl⟩ := h
  · exact h.sound hb hs
  · intro t ht
    rw [Expression.targets] at ht
    cases ht

theorem MadeCall.sound {i : Invocation} (h : b.MadeCall i) : i.Sound s.symbols := by
  cases h with
  | sub hcallee has =>
    refine ⟨?_, nofun, nofun, fun a ha => (has a ha).sound hb hs, nofun⟩
    rintro _ ⟨⟩
    exact hcallee.sound hb hs
  | method ht hm has =>
    refine ⟨?_, ?_, nofun, fun a ha => (has a ha).sound hb hs, nofun⟩
    · rintro _ ⟨⟩
      exact ht.sound hb hs
    · rintro _ ⟨⟩
      exact hm.sound hb hs

theorem MadeStatement.sound {st : Statement} (h : b.MadeStatement st) : st.Sound b.unit s := by
  cases h with
  | instruction h => exact .instruction fun e he => (h e he).sound hb hs
  | constantTest p label _ hc hpmc =>
    exact .constantTest ⟨p, _, label, none, _, rfl, hpmc, lookupConstant_cases hs hc⟩
  | short hi hr =>
    have hi := hi.sound hb hs
    exact .invocation ⟨hi.callee, hi.method, hi.retcont, hi.arguments,
      fun t ht => (hr t ht).sound hb hs⟩
  | tailcall hi =>
    have hi := hi.sound hb hs
    exact .invocation ⟨hi.callee, hi.method, hi.retcont, hi.arguments, hi.results⟩
  | returns has =>
    exact .invocation ⟨nofun, nofun, nofun, fun a ha => (has a ha).sound hb hs, nofun⟩
  | yields has =>
    exact .invocation ⟨nofun, nofun, nofun, fun a ha => (has a ha).sound hb hs, nofun⟩

/-- A directive of a block leaves its invocation sound. -/
theorem sound_put {part : BlockPart} (h : part.Made b) {call : PendingCall}
    (hcall : call.invocation.Sound s.symbols) : (part.put call).invocation.Sound s.symbols := by
  obtain ⟨hcallee, hmethod, hretcont, harguments, hresults⟩ := hcall
  -- Each part fills one place of the invocation, and the others stay as they were.
  cases part with
  | argument a =>
    refine ⟨hcallee, hmethod, hretcont, ?_, hresults⟩
    intro a' ha'
    obtain hold | hnew := List.mem_append.mp ha'
    · exact harguments a' hold
    · obtain rfl := List.mem_singleton.mp hnew
      exact Made.sound hb hs h
  | call callee retcont =>
    refine ⟨?_, hmethod, fun r hr => (h.2 r hr).sound hb hs, harguments, hresults⟩
    rintro _ ⟨⟩
    exact h.1.sound hb hs
  | native callee =>
    refine ⟨?_, hmethod, hretcont, harguments, hresults⟩
    rintro _ ⟨⟩
    exact Made.sound hb hs h
  | invocant t =>
    refine ⟨?_, hmethod, hretcont, harguments, hresults⟩
    rintro _ ⟨⟩
    exact Made.sound hb hs h
  | method m =>
    refine ⟨hcallee, ?_, hretcont, harguments, hresults⟩
    rintro _ ⟨⟩
    exact MadeMethod.sound hb hs h
  | result t =>
    refine ⟨hcallee, hmethod, hretcont, harguments, ?_⟩
    intro t' ht'
    obtain hold | hnew := List.mem_append.mp ht'
    · exact hresults t' hold
    · obtain rfl := List.mem_singleton.mp hnew
      exact Made.sound hb hs h

end Builder

/-! Every run -/

namespace Builder

/-- What was built so far is sound. In a block that is so of its invocation too. -/
structure Sound (p : Place) (b : Builder) : Prop where
  closed : ∀ s ∈ b.unit.subroutines, s.Sound b.unit
  current : ∀ s, b.current = some s → s.Sound b.unit
  namespaceKey : b.unit.namespaceKey.elim [] Key.targets = []
  block : ∀ k, p = .block k → ∀ s, b.current = some s → ∀ call, b.pendingCall = some call →
    call.invocation.Sound s.symbols

namespace Sound

variable {p : Place} {b b' : Builder}

theorem same (h : b.Sound p) (hs : b.SameContent b') : b'.Sound p := by
  refine ⟨?_, ?_, hs.namespaceKey ▸ h.namespaceKey, ?_⟩
  · intro s hsub
    rw [hs.closed] at hsub
    exact (h.closed s hsub).mono (.refl s) hs.constants hs.globalConstants
  · intro s' hs'
    obtain ⟨s, hcurrent, hd⟩ := hs.exists_current hs'
    exact (h.current s hcurrent).mono hd hs.constants hs.globalConstants
  · intro k hk s' hs' call hcall
    obtain ⟨s, hcurrent, hd⟩ := hs.exists_current hs'
    rw [hs.pendingCall] at hcall
    exact (h.block k hk s hcurrent call hcall).mono hd.symbols

/-- Outside of a block the open block does not matter. -/
theorem body (h : b.Sound p) : b.Sound .body :=
  ⟨h.closed, h.current, h.namespaceKey, nofun⟩

theorem modifySub (h : b.Sound .body) {f : Subroutine → Subroutine}
    (hf : ∀ s, b.current = some s → s.Sound b.unit → (f s).Sound b.unit) :
    (b.modifySub f).Sound .body := by
  refine ⟨h.closed, ?_, h.namespaceKey, nofun⟩
  intro s' hs'
  obtain ⟨s, hs, rfl⟩ := Option.map_eq_some_iff.mp hs'
  exact hf s hs (h.current s hs)

theorem closeSub (h : b.Sound p) : b.closeSub.2.Sound .top := by
  unfold Builder.closeSub
  split
  next => exact ⟨h.closed, h.current, h.namespaceKey, nofun⟩
  next s hs =>
    refine ⟨?_, nofun, h.namespaceKey, nofun⟩
    intro s' hs'
    obtain hold | hnew := List.mem_append.mp hs'
    · exact (h.closed s' hold).mono (.refl s') (.refl _) (.refl _)
    · obtain rfl := List.mem_singleton.mp hnew
      exact (h.current s' hs).mono (.refl s') (.refl _) (.refl _)

theorem openSub (h : b.Sound p) (name : String) : (b.openSub name).2.Sound .body := by
  have hclosed := h.closeSub
  refine ⟨hclosed.closed, ?_, hclosed.namespaceKey, nofun⟩
  rintro _ ⟨⟩
  exact ⟨hclosed.namespaceKey, nofun, nofun, nofun⟩

end Sound

/-- The builder is sound unless something was reported. -/
def SoundOr (p : Place) (b : Builder) : Prop := b.diagnostics = [] → b.Sound p

/-- A problem leaves nothing to show. -/
theorem soundOr_report (p : Place) (b : Builder) (kind : DiagnosticKind) (message : String) :
    (Build.report kind message).Leaves b (SoundOr p) := by
  apply Build.Leaves.report
  intro _ hnone
  simp [record] at hnone

theorem SoundOr.emit {p : Place} {b : Builder} {st : Statement} (h : b.SoundOr p)
    (hst : b.diagnostics = [] → ∀ s, b.current = some s → st.Sound b.unit s) :
    (Build.emit st).Leaves b (SoundOr .body) := by
  apply Build.emit_leaves
  intro s hs hb
  have h := h hb
  refine ⟨h.closed, ?_, h.namespaceKey, nofun⟩
  rintro _ ⟨⟩
  exact (h.current s hs).emit ((hst hb s hs).labelled b.pendingLabel)

end Builder

instance : Builder.Kept Builder.SoundOr where
  same hs h hnone := (h (List.prefix_nil.mp (hnone ▸ hs.diagnostics))).same hs
  emit h hst := h.emit fun hb s hs => hst.sound hb hs
  addParameter {b s name type uniqueReg symbol symbols} flags namedAs invocantType h hs hok hb := by
    apply (h hb).modifySub
    intro s' hs' hsound
    obtain rfl := Option.some.inj (hs.symm.trans hs')
    exact hsound.addParameter hok
  addLexical {b t} name h ht hpmc hb := by
    change b.diagnostics = [] at hb
    apply (h hb).modifySub
    intro s hs hsound
    exact hsound.addLexical (hpmc.pmc hb) (ht.sound hb hs)
  setLabel name h hb := by
    have h' := (h hb).modifySub (f := fun s =>
      { s with labels := s.labels.insert name s.statements.length }) fun s _ hsound =>
        ⟨hsound.namespaceKey, hsound.parameters, hsound.lexicals, fun st hst =>
          (hsound.statements st hst).same rfl rfl⟩
    exact ⟨h'.closed, h'.current, h'.namespaceKey, nofun⟩
  beginBlock {b} k h hb := by
    have hb' : b.diagnostics = [] := by cases k <;> exact hb
    have h := h hb'
    refine ⟨?_, ?_, ?_, ?_⟩
    · cases k <;> exact h.closed
    · cases k <;> exact h.current
    · cases k <;> exact h.namespaceKey
    · rintro _ ⟨⟩ s hs call hcall
      cases k <;> (cases hcall; exact Invocation.sound_empty _)
  leaveBlock h hb := (h hb).body
  changeCall {b k part} h _ hm := by
    apply Build.changeCall_leaves
    intro call hcall hb
    change b.diagnostics = [] at hb
    have h := h hb
    refine ⟨h.closed, h.current, h.namespaceKey, ?_⟩
    rintro _ ⟨⟩ s hs _ ⟨⟩
    exact Builder.sound_put (b := b) hb hs hm (h.block k rfl s hs call hcall)
  endCall {b k} h := by
    refine Build.endCall_leaves (Builder.soundOr_report _ _ _ _) ?_
    intro call hcall
    refine ⟨?_, Builder.soundOr_report _ _ _ _⟩
    have hbody : Builder.SoundOr .body { b with pendingCall := none } := by
      intro hb
      have h := h hb
      exact ⟨h.closed, h.current, h.namespaceKey, nofun⟩
    exact hbody.emit fun hb s hs => .invocation ((h hb).block k rfl s hs call hcall)
  openSub {b} name h hb := (h (b.closeSub_same.diagnostics.symm.trans hb)).openSub name
  closeSub {b} h hb := (h (b.closeSub_same.diagnostics.symm.trans hb)).closeSub
  setNamespace names h hb := by
    have h := h hb
    refine ⟨?_, ?_, Key.targets_ofList?_string names, nofun⟩
    · exact fun s hs => (h.closed s hs).mono (.refl s) (.refl _) (.refl _)
    · exact fun s hs => (h.current s hs).mono (.refl s) (.refl _) (.refl _)

/-- The subroutines of a clean unit are sound. -/
theorem sound_of_compile {source : String} {o : BuildOptions} {c : Compiled}
    (h : compile source o = .ok c) (hclean : c.diagnostics = []) :
    ∀ s ∈ c.unit.subroutines, s.Sound c.unit := by
  have hstart : Builder.SoundOr .top (.new o) := fun _ => ⟨nofun, nofun, rfl, nofun⟩
  obtain ⟨b, hb, rfl⟩ := compile_kept Builder.SoundOr hstart h
  exact (hb ((Builder.finish_diagnostics b).symm.trans hclean)).closeSub.closed

namespace Subroutine

variable {u : CompilationUnit} {s : Subroutine}

theorem Sound.head (h : s.Sound u) : ∀ t ∈ s.headTargets, t.Sound s.symbols := by
  intro t ht
  simp only [headTargets, h.namespaceKey, List.nil_append, List.mem_append, List.mem_flatMap] at ht
  obtain ⟨p, hp, ht⟩ | ⟨l, hl, ht⟩ := ht
  · apply h.parameters p hp
    rw [Expression.targets]
    exact ht
  · apply (h.lexicals l hl).2
    rw [Expression.targets]
    exact ht

theorem Sound.statement (h : s.Sound u) {st : Statement} (hst : st ∈ s.statements) :
    st.TestsConstant u s ∨ ∀ t ∈ st.targets, t.Sound s.symbols := by
  cases h.statements st hst with
  | instruction h =>
    right
    intro t ht
    obtain ⟨e, he, ht⟩ := List.mem_flatMap.mp ht
    exact h e he t ht
  | constantTest h => exact .inl h
  | invocation h => exact .inr h.targets

end Subroutine

/-- A constant that is tested stands there without an index. -/
theorem Statement.TestsConstant.key {u : CompilationUnit} {s : Subroutine} {st : Statement}
    (h : st.TestsConstant u s) : ∀ t ∈ st.targets, t.key = none := by
  obtain ⟨p, name, label, front, c, rfl, -, -⟩ := h
  intro t ht
  simp only [targets, Polarity.variableBranch, Instruction.of, List.flatMap_cons,
    Expression.targets, Target.targets_ofSymbol, List.flatMap_nil, List.append_nil,
    List.mem_singleton] at ht
  rw [ht]
  rfl

/-- In a clean unit every name among the targets is one that its own subroutine declares, and the
target has the type and the register of the declaration. Only a named pmc constant may be tested
as well. -/
theorem compile_targets_declared {source : String} {o : BuildOptions} {c : Compiled}
    (h : compile source o = .ok c) (hclean : c.diagnostics = []) :
    ∀ s ∈ c.unit.subroutines, (∀ t ∈ s.headTargets, t.DeclaredIn s.symbols) ∧
      ∀ st ∈ s.statements, st.TestsConstant c.unit s ∨
        ∀ t ∈ st.targets, t.DeclaredIn s.symbols := by
  intro s hs
  have hsound := sound_of_compile h hclean s hs
  refine ⟨fun t ht => (hsound.head t ht).declared, ?_⟩
  intro st hst
  exact (hsound.statement hst).imp_right fun hall t ht => (hall t ht).declared

/-- A file constant that is tested, behind a symbol that is a parameter and a lexical. -/
theorem compile_targets_declared_tested : ∃ c, compile
      ".const pmc h = 'h'\n.sub main\n.param pmc p\n.lex '$p', p\np.'run'()\nif h goto l\nl:\n.end"
      .standard = .ok c ∧ c.diagnostics = [] ∧ (∃ s ∈ c.unit.subroutines, s.targets.length = 4) ∧
    ∀ s ∈ c.unit.subroutines, (∀ t ∈ s.headTargets, t.DeclaredIn s.symbols) ∧
      ∀ st ∈ s.statements, st.TestsConstant c.unit s ∨
        ∀ t ∈ st.targets, t.DeclaredIn s.symbols := by
  have htest : compiles
      ".const pmc h = 'h'\n.sub main\n.param pmc p\n.lex '$p', p\np.'run'()\nif h goto l\nl:\n.end"
      (fun c => c.diagnostics.isEmpty &&
        c.unit.subroutines.any (·.targets.length == 4)) = true := by
    decide +kernel
  obtain ⟨c, hc, htest⟩ := exists_of_compiles htest
  obtain ⟨hclean, hany⟩ := Bool.and_eq_true_iff.mp htest
  obtain ⟨s, hs, hlength⟩ := List.any_eq_true.mp hany
  replace hclean := List.isEmpty_iff.mp hclean
  exact ⟨c, hc, hclean, ⟨s, hs, beq_iff_eq.mp hlength⟩, compile_targets_declared hc hclean⟩

/-- In a clean unit whatever has an index is a pmc, at any depth; so is every lexical; and the
method of a call is a string, or a target that holds a pmc or a string. -/
theorem compile_targets_typed {source : String} {o : BuildOptions} {c : Compiled}
    (h : compile source o = .ok c) (hclean : c.diagnostics = []) :
    ∀ s ∈ c.unit.subroutines, (∀ t ∈ s.targets, t.key.isSome → t.type = .pmc) ∧
      (∀ l ∈ s.lexicals, l.target.type = .pmc) ∧
      ∀ i, .invocation i ∈ s.statements → ∀ m, i.method = some m → m.IsMethod := by
  intro s hs
  have hsound := sound_of_compile h hclean s hs
  refine ⟨?_, fun l hl => (hsound.lexicals l hl).1, ?_⟩
  · intro t ht hkey
    rw [Subroutine.targets, List.mem_append, List.mem_flatMap] at ht
    obtain ht | ⟨st, hst, ht⟩ := ht
    · exact (hsound.head t ht).keyed hkey
    · obtain htest | hall := hsound.statement hst
      · rw [htest.key t ht] at hkey
        cases hkey
      · exact (hall t ht).keyed hkey
  · intro i hi m hm
    cases hsound.statements _ hi with
    | constantTest htest =>
      obtain ⟨p, name, label, front, c, heq, -, -⟩ := htest
      cases heq
    | invocation h => exact (h.method m hm).1

/-- An index in an index, and a method that a string register names. -/
theorem compile_targets_typed_nested : ∃ c, compile
      ".sub main\n.param pmc p\n.lex '$p', p\n$S0 = p[p[1]]\np.$S0()\n.end" .standard = .ok c ∧
    c.diagnostics = [] ∧
    (∃ s ∈ c.unit.subroutines, 2 ≤ (s.targets.filter (·.key.isSome)).length) ∧
    ∀ s ∈ c.unit.subroutines, (∀ t ∈ s.targets, t.key.isSome → t.type = .pmc) ∧
      (∀ l ∈ s.lexicals, l.target.type = .pmc) ∧
      ∀ i, .invocation i ∈ s.statements → ∀ m, i.method = some m → m.IsMethod := by
  have htest : compiles ".sub main\n.param pmc p\n.lex '$p', p\n$S0 = p[p[1]]\np.$S0()\n.end"
      (fun c => c.diagnostics.isEmpty && c.unit.subroutines.any fun s =>
        2 ≤ (s.targets.filter (·.key.isSome)).length) = true := by
    decide +kernel
  obtain ⟨c, hc, htest⟩ := exists_of_compiles htest
  obtain ⟨hclean, hany⟩ := Bool.and_eq_true_iff.mp htest
  obtain ⟨s, hs, hlength⟩ := List.any_eq_true.mp hany
  replace hclean := List.isEmpty_iff.mp hclean
  exact ⟨c, hc, hclean, ⟨s, hs, of_decide_eq_true hlength⟩, compile_targets_typed hc hclean⟩

end PirFrontend
