import PirFrontend.Proofs.NamedConstants

/-!
Resolution of names. A name may be read as a value, passed to an opcode, assigned and tested, and
each of these looks it up for itself. They agree on what it stands for: the first entity of that
name from the innermost scope outwards. They part only over names that stand for nothing.
-/
namespace PirFrontend

/-- What a name stands for. -/
inductive Entity where
  | symbol (s : Symbol)
  | constant (c : Constant)

namespace Entity

/-- The entity as an operand. -/
def operand : Entity → Expression
  | symbol s => .target (.ofSymbol s)
  | constant c => .constant c

/-- What is known of the entity as a condition. -/
def condition : Entity → Condition
  | symbol _ => .runtime
  | constant c =>
    match c.truth with
    | .ok value => .known value
    | .error _ => .runtime

/-- The branch on the entity. A pmc constant is tested when the program runs, under its name. -/
def branch (e : Entity) (p : Polarity) (name label : String) : Instruction :=
  match e with
  | symbol s => p.variableBranch false (.ofSymbol s) label
  | constant c =>
    match c.truth with
    | .ok value => p.constantBranch value label
    | .error _ => p.variableBranch false (.ofSymbol (.placeholder name .pmc)) label

end Entity

namespace Subroutine

/-- Where a subroutine looks for a name, the innermost scope first: among its symbols, its
constants, those of the file and the global ones. -/
def scopes (s : Subroutine) (u : CompilationUnit) : List (String → Option Entity) :=
  [fun name => (s.symbols.lookup name).map .symbol,
    fun name => (s.constants.get? name).map .constant,
    fun name => (u.constants.get? name).map .constant,
    fun name => (u.globalConstants.get? name).map .constant]

/-- What a name stands for in a subroutine of the unit. -/
def resolve (s : Subroutine) (u : CompilationUnit) (name : String) : Option Entity :=
  (s.scopes u).findSome? (· name)

end Subroutine

namespace Builder

/-- The unit of a build and the symbols and constants of its open subroutine are the same. -/
structure SameTables (b b' : Builder) : Prop where
  unit : b'.unit = b.unit
  symbols : b'.current.map (·.symbols) = b.current.map (·.symbols)
  constants : b'.current.map (·.constants) = b.current.map (·.constants)

/-- Reports a problem and goes on with `next`, unless that problem was one too many. Then building
is given up. -/
def complaining {α : Type} (b : Builder) (p : Problem) (next : Builder → Except Fatal α × Builder) :
    Except Fatal α × Builder :=
  let b := b.record p.kind p.message
  if b.overfull then (.error b.tooManyErrors, { b with aborted := true }) else next b

variable {b : Builder}

theorem SameTables.refl (b : Builder) : b.SameTables b := ⟨rfl, rfl, rfl⟩

theorem SameTables.trans {b' b'' : Builder} (h : b.SameTables b') (h' : b'.SameTables b'') :
    b.SameTables b'' :=
  ⟨h'.unit.trans h.unit, h'.symbols.trans h.symbols, h'.constants.trans h.constants⟩

/-- The open subroutine is still open. -/
theorem SameTables.isSome {b' : Builder} (h : b.SameTables b') :
    b'.current.isSome = b.current.isSome := by
  simpa using congrArg Option.isSome h.symbols

theorem sameTables_record (b : Builder) (kind : DiagnosticKind) (message : String) :
    b.SameTables (b.record kind message) := ⟨rfl, rfl, rfl⟩

theorem sameTables_appended (b : Builder) (st : Statement) : b.SameTables (b.appended st) := by
  refine ⟨rfl, ?_, ?_⟩ <;>
  · simp only [appended, modifySub, Option.map_map]
    rfl

theorem complaining_sameTables {α : Type} {p : Problem} {next : Builder → Except Fatal α × Builder}
    (h : ∀ b', b.SameTables b' → b.SameTables (next b').2) :
    b.SameTables (b.complaining p next).2 := by
  unfold complaining
  dsimp only
  split
  · exact ⟨rfl, rfl, rfl⟩
  · exact h _ (b.sameTables_record _ _)

theorem resolve_eq {s : Subroutine} (hs : b.current = some s) (name : String) :
    s.resolve b.unit name =
      ((b.lookup name).map .symbol).or ((b.lookupConstant name).map .constant) := by
  simp only [Subroutine.resolve, Subroutine.scopes, List.findSome?_cons, List.findSome?_nil, lookup,
    lookupConstant, hs, Option.bind_some]
  cases s.symbols.lookup name <;> cases s.constants.get? name <;>
    cases b.unit.constants.get? name <;> cases b.unit.globalConstants.get? name <;> rfl

end Builder

namespace Build

/-- Wherever the name is written, it is `e`. -/
structure Named (b : Builder) (name : String) (e : Entity) : Prop where
  value : (identifierValue name).run b = (.ok e.operand, b)
  operand : b.identifierOperand name = e.operand
  assigned : ∀ t, (assignOp t name []).run b =
    (.ok (), b.appended (.instruction (.of "set" [.target t, e.operand])))
  tested : ∀ p label, (conditionalVariable p false name label).run b =
    (.ok e.condition, b.appended (.instruction (e.branch p name label)))

/-- The name stands for nothing. As an operand it is a label, and as the source of an assignment it
may still be an opcode; a value and a condition need a symbol, so they report it and go on with a
stand-in. -/
structure Unnamed (b : Builder) (name : String) : Prop where
  value : (identifierValue name).run b = b.complaining (.undeclaredSymbol name) fun b =>
    (.ok (.target (.ofSymbol (.placeholder name .unknown))), b)
  operand : b.identifierOperand name = .label name
  assigned : ∀ t, (assignOp t name []).run b =
    if b.opcodes.contains name then (.ok (), b.appended (.instruction (.of name [.target t])))
    else b.complaining (.undeclaredSource name) fun b => (.ok (), b)
  tested : ∀ p label, (conditionalVariable p false name label).run b =
    b.complaining (.undeclaredSymbol name) fun b => (.ok .runtime, b.appended
      (.instruction (p.variableBranch false (.ofSymbol (.placeholder name .unknown)) label)))

/-- No use of the name changes what is declared. As an operand it does not touch the builder at
all. -/
structure KeepsTables (b : Builder) (name : String) : Prop where
  value : b.SameTables ((identifierValue name).run b).2
  assigned : ∀ t, b.SameTables ((assignOp t name []).run b).2
  tested : ∀ p label, b.SameTables ((conditionalVariable p false name label).run b).2

variable {b : Builder} {name : String} {α β : Type}

theorem run_complain (ha : b.aborted = false) (p : Problem) :
    (complain p).run b = b.complaining p fun b => (.ok (), b) := by
  unfold complain Builder.complaining
  rw [run_report, ha]
  rfl

/-- What follows on a problem is done only if building goes on. -/
theorem run_bind_complaining (ha : b.aborted = false) {x : Build α} {p : Problem} {a : α}
    (f : α → Build β) {next : Builder → Except Fatal β × Builder}
    (h : x.run b = b.complaining p fun b => (.ok a, b))
    (hf : ∀ b', b'.aborted = false → b.SameTables b' → (f a).run b' = next b') :
    (x >>= f).run b = b.complaining p next := by
  have hnext := hf (b.record p.kind p.message)
  unfold Builder.complaining at h ⊢
  dsimp only at h ⊢
  cases hr : (b.record p.kind p.message).overfull with
  | true =>
    rw [if_pos hr] at h
    rw [run_bind_error h, if_pos rfl]
  | false =>
    rw [hr, if_neg Bool.false_ne_true] at h
    rw [run_bind_ok h, if_neg Bool.false_ne_true]
    exact hnext ha (b.sameTables_record _ _)

theorem run_conditionalTarget (ha : b.aborted = false) (hs : b.current.isSome) (p : Polarity)
    (nullCheck : Bool) (t : Target) (label : String) :
    (conditionalTarget p nullCheck t label).run b =
      (.ok .runtime, b.appended (.instruction (p.variableBranch nullCheck t label))) := by
  unfold conditionalTarget
  rw [run_bind_ok (run_emit_appended ha hs _)]
  rfl

theorem run_conditionalKnown (ha : b.aborted = false) (hs : b.current.isSome) (p : Polarity)
    (value : Bool) (label : String) : (conditionalKnown p value label).run b =
      (.ok (.known value), b.appended (.instruction (p.constantBranch value label))) := by
  unfold conditionalKnown
  rw [run_bind_ok (run_emit_appended ha hs _)]
  rfl

/-! A symbol -/

theorem named_symbol {s : Symbol} (ha : b.aborted = false) (hs : b.current.isSome)
    (h : b.lookup name = some s) : Named b name (.symbol s) := by
  refine ⟨run_identifierValue h, ?_, ?_, ?_⟩
  · simp only [Builder.identifierOperand, h]
    rfl
  · intro t
    have hset : (assignOp t name []).run b =
        (emitOp "set" [.target t, .target (.ofSymbol s)]).run b := by
      unfold assignOp
      rw [run_bind, run_get]
      simp only [h]
    rw [hset]
    exact run_emit_appended ha hs _
  · intro p label
    unfold conditionalVariable
    rw [run_bind, run_get]
    simp only [h]
    rw [run_bind_ok (run_symbolTarget h)]
    exact run_conditionalTarget ha hs p false _ label

/-! A constant -/

theorem run_conditionalVariable_constant {c : Constant} (ha : b.aborted = false)
    (hs : b.current.isSome) (hsymbol : b.lookup name = none)
    (hconstant : b.lookupConstant name = some c) (p : Polarity) (label : String) :
    (conditionalVariable p false name label).run b = (.ok (Entity.constant c).condition,
      b.appended (.instruction ((Entity.constant c).branch p name label))) := by
  by_cases hc : c.type = .pmc
  case neg =>
    obtain ⟨value, hvalue⟩ := exists_truth hc
    rw [conditionalVariable_eq hsymbol hconstant hc rfl]
    simp only [conditionalConstant, Entity.condition, Entity.branch, hvalue]
    exact run_conditionalKnown ha hs p value label
  case pos =>
    -- It has no truth value, so the branch is on its name.
    have htruth : c.truth = .error ⟨.pmc⟩ := by
      obtain ⟨n, v⟩ := c
      cases v with
      | pmc text => rfl
      | int v => cases hc
      | num v => cases hc
      | string text => cases hc
    unfold conditionalVariable
    rw [run_bind, run_get]
    simp only [hsymbol, hconstant, if_pos hc, Entity.condition, Entity.branch, htruth]
    exact run_conditionalTarget ha hs p false _ label

theorem named_constant {c : Constant} (ha : b.aborted = false) (hs : b.current.isSome)
    (hsymbol : b.lookup name = none) (hconstant : b.lookupConstant name = some c) :
    Named b name (.constant c) := by
  refine ⟨?_, ?_, run_assignOp_constant ha hs hsymbol hconstant,
    run_conditionalVariable_constant ha hs hsymbol hconstant⟩
  · unfold identifierValue
    rw [run_bind, run_get]
    simp only [hsymbol, hconstant]
    rfl
  · simp only [Builder.identifierOperand, hsymbol, hconstant]
    rfl

/-! Neither of them -/

theorem run_symbolTarget_unknown (ha : b.aborted = false) (hsymbol : b.lookup name = none) :
    (symbolTarget name).run b = b.complaining (.undeclaredSymbol name) fun b =>
      (.ok (.ofSymbol (.placeholder name .unknown)), b) := by
  unfold symbolTarget
  rw [run_bind, run_get]
  simp only [hsymbol]
  unfold undeclared
  exact run_bind_complaining ha _ (run_complain ha _) fun _ _ _ => rfl

theorem unnamed_unknown (ha : b.aborted = false) (hs : b.current.isSome)
    (hsymbol : b.lookup name = none) (hconstant : b.lookupConstant name = none) :
    Unnamed b name := by
  have htarget := run_symbolTarget_unknown ha hsymbol
  refine ⟨?_, ?_, ?_, ?_⟩
  · unfold identifierValue
    rw [run_bind, run_get]
    simp only [hsymbol, hconstant]
    exact run_bind_complaining ha _ htarget fun _ _ _ => rfl
  · simp only [Builder.identifierOperand, hsymbol, hconstant]
  · intro t
    unfold assignOp
    rw [run_bind, run_get]
    simp only [hsymbol, hconstant]
    split
    · exact run_emit_appended ha hs _
    · exact run_complain ha _
  · intro p label
    unfold conditionalVariable
    rw [run_bind, run_get]
    simp only [hsymbol, hconstant]
    -- The report leaves the subroutine open, so the branch on the stand-in can be emitted.
    refine run_bind_complaining ha _ htarget fun b' ha' hsame => ?_
    exact run_conditionalTarget ha' (hsame.isSome.trans hs) p false _ label

/-! Any name -/

theorem Named.keepsTables {e : Entity} (h : Named b name e) : KeepsTables b name := by
  refine ⟨?_, fun t => ?_, fun p label => ?_⟩
  · rw [h.value]
    exact .refl b
  · rw [h.assigned]
    exact b.sameTables_appended _
  · rw [h.tested]
    exact b.sameTables_appended _

theorem Unnamed.keepsTables (h : Unnamed b name) : KeepsTables b name := by
  refine ⟨?_, fun t => ?_, fun p label => ?_⟩
  · rw [h.value]
    exact Builder.complaining_sameTables fun _ hsame => hsame
  · rw [h.assigned]
    split
    · exact b.sameTables_appended _
    · exact Builder.complaining_sameTables fun _ hsame => hsame
  · rw [h.tested]
    exact Builder.complaining_sameTables fun c hsame => hsame.trans (c.sameTables_appended _)

theorem named_or_unnamed (ha : b.aborted = false) (hs : b.current.isSome) (name : String) :
    match ((b.lookup name).map .symbol).or ((b.lookupConstant name).map .constant) with
    | some e => Named b name e
    | none => Unnamed b name := by
  cases hsymbol : b.lookup name with
  | some s => exact named_symbol ha hs hsymbol
  | none =>
    cases hconstant : b.lookupConstant name with
    | some c => exact named_constant ha hs hsymbol hconstant
    | none => exact unnamed_unknown ha hs hsymbol hconstant

/-- A name stands for the same wherever it is written: for the first entity of that name among the
symbols of the open subroutine, its constants, those of the file and the global ones. -/
theorem names_resolve_alike {s : Subroutine} (ha : b.aborted = false) (hs : b.current = some s)
    (name : String) :
    (∀ e, s.resolve b.unit name = some e → Named b name e) ∧
    (s.resolve b.unit name = none → Unnamed b name) ∧
    KeepsTables b name := by
  have hname := named_or_unnamed ha (Option.isSome_of_eq_some hs) name
  rw [← Builder.resolve_eq hs] at hname
  cases hresolve : s.resolve b.unit name with
  | some e =>
    rw [hresolve] at hname
    exact ⟨fun _ heq => Option.some.inj heq ▸ hname, nofun, hname.keepsTables⟩
  | none =>
    rw [hresolve] at hname
    exact ⟨nofun, fun _ => hname, hname.keepsTables⟩

/-- A constant of the subroutine hides those of the file and the global one. -/
theorem names_resolve_alike_hidden :
    let global := ((declareGlobalConstant "N" (.int 1)).run (.new .standard)).2
    let file := ((declareConstant "N" (.num 2.5)).run global).2
    let b := ((declareConstant "N" (.pmc "x")).run (file.openSub "main").2).2
    b.aborted = false ∧ b.current.isSome ∧ Named b "N" (.constant (.named "N" (.pmc "x"))) ∧
      KeepsTables b "N" := by
  intro global file b
  have h := names_resolve_alike (b := b) rfl rfl "N"
  exact ⟨rfl, rfl, h.1 _ rfl, h.2.2⟩

end Build
end PirFrontend
