import Mathlib.Data.List.Basic
import PirFrontend.Build.Operand
import PirFrontend.Code.LabelCheck
import PirFrontend.Code.Reduction
import PirFrontend.Value.Truth

/-!
Code under other names. Names that were declared in the text, and the labels, are replaced one by
one; what is only quoted or numbered stays. Under an injective renaming, tables find what they found
before, operands that were the same stay the same, and arithmetic is put into the same form.
-/
namespace PirFrontend

/-! Other names -/

section

variable (f : String → String)

def Symbol.rename (s : Symbol) : Symbol := { s with name := f s.name }

def SymbolTable.rename (t : SymbolTable) : SymbolTable :=
  { t with symbols := t.symbols.map (Symbol.rename f) }

/-- The table with its names replaced, and its values too. -/
def Table.rename {α : Type} (g : α → α) (t : Table α) : Table α := ⟨t.entries.map (Prod.map f g)⟩

def Constant.rename (c : Constant) : Constant := { c with name := c.name.map f }

def Storage.rename : Storage → Storage
  | .register t n => .register t n
  | .symbol n t r => .symbol (f n) t r

mutual

/-- The target with its name and its key renamed. Lexical names and those of `:named` are quoted. -/
def Target.rename : Target → Target
  | ⟨storage, none, flags, namedAs, lexName⟩ => ⟨storage.rename f, none, flags, namedAs, lexName⟩
  | ⟨storage, some key, flags, namedAs, lexName⟩ =>
    ⟨storage.rename f, some key.rename, flags, namedAs, lexName⟩

def Key.rename : Key → Key
  | ⟨first, more⟩ => ⟨first.rename, Key.renameMore more⟩

/-- The expressions behind the first. -/
def Key.renameMore : List Expression → List Expression
  | [] => []
  | e :: rest => e.rename :: Key.renameMore rest

def Expression.rename : Expression → Expression
  | .target t => .target t.rename
  | .constant c => .constant (c.rename f)
  | .key k => .key k.rename
  | .label name => .label (f name)

end

def PmcObject.rename : PmcObject → PmcObject
  | .named name => .named (f name)
  | .register number => .register number

/-- The instruction with its operands and its label renamed. Opcodes are no names of the text. -/
def Instruction.rename (i : Instruction) : Instruction :=
  ⟨i.label.map f, i.opcode, i.operands.map (Expression.rename f)⟩

def Argument.rename (a : Argument) : Argument := { a with value := a.value.rename f }

def Invocation.rename (i : Invocation) : Invocation :=
  ⟨i.kind, i.callee.map (Expression.rename f), i.method.map (Expression.rename f),
    i.retcont.map (Target.rename f), i.arguments.map (Argument.rename f),
    i.results.map (Target.rename f), i.label.map f⟩

def PendingCall.rename (p : PendingCall) : PendingCall :=
  { p with invocation := p.invocation.rename f }

def Statement.rename : Statement → Statement
  | .instruction i => .instruction (i.rename f)
  | .invocation i => .invocation (i.rename f)

def Parameter.rename (p : Parameter) : Parameter := { p with target := p.target.rename f }

def Lexical.rename (l : Lexical) : Lexical := { l with target := l.target.rename f }

/-- The subroutine with the names and labels of its body replaced. Its own name stays. -/
def Subroutine.rename (s : Subroutine) : Subroutine :=
  { s with
    parameters := s.parameters.map (Parameter.rename f)
    lexicals := s.lexicals.map (Lexical.rename f)
    constants := s.constants.rename f (Constant.rename f)
    statements := s.statements.map (Statement.rename f)
    labels := s.labels.rename f id
    symbols := s.symbols.rename f }

/-- The unit with the names and labels in its subroutines replaced, and those of its constants. -/
def CompilationUnit.rename (u : CompilationUnit) : CompilationUnit :=
  { u with
    subroutines := u.subroutines.map (Subroutine.rename f)
    globalConstants := u.globalConstants.rename f (Constant.rename f)
    constants := u.constants.rename f (Constant.rename f) }

def LabelFault.rename : LabelFault → LabelFault
  | .undefined sub label statement => .undefined sub (f label) statement
  | .outOfRange sub label index count => .outOfRange sub (f label) index count

end

/-! Tables -/

section

variable {f : String → String} {α : Type} {g : α → α}

namespace Table

theorem get?_rename (hf : f.Injective) (t : Table α) (name : String) :
    (t.rename f g).get? (f name) = (t.get? name).map g := by
  obtain ⟨entries⟩ := t
  simp only [get?, rename]
  induction entries with
  | nil => rfl
  | cons entry entries ih =>
    obtain ⟨n, value⟩ := entry
    by_cases h : name = n
    · subst h
      simp
    · have h' : f name ≠ f n := fun he => h (hf he)
      simp [List.lookup_cons, beq_false_of_ne h, beq_false_of_ne h', ih]

theorem contains_rename (hf : f.Injective) (t : Table α) (name : String) :
    (t.rename f g).contains (f name) = t.contains name := by
  rw [contains, get?_rename hf, Option.isSome_map]
  rfl

theorem insert_rename (hf : f.Injective) (t : Table α) (name : String) (value : α) :
    (t.insert name value).rename f g = (t.rename f g).insert (f name) (g value) := by
  obtain ⟨entries⟩ := t
  simp only [insert, rename, Table.mk.injEq]
  induction entries with
  | nil => rfl
  | cons entry entries ih =>
    obtain ⟨n, old⟩ := entry
    simp only [put, List.map_cons, Prod.map, hf.eq_iff]
    split
    · rfl
    · rw [List.map_cons, ih]
      rfl

end Table

namespace SymbolTable

theorem lookup_rename (hf : f.Injective) (t : SymbolTable) (name : String) :
    (t.rename f).lookup (f name) = (t.lookup name).map (Symbol.rename f) := by
  obtain ⟨symbols, count⟩ := t
  simp only [lookup, rename]
  induction symbols with
  | nil => rfl
  | cons s symbols ih =>
    have hname : ((s.rename f).name == f name) = (s.name == name) := by
      simp [Symbol.rename, hf.eq_iff]
    simp only [List.map_cons, List.find?_cons, hname, ih]
    cases s.name == name <;> rfl

theorem declare_rename (hf : f.Injective) {t u : SymbolTable} {name : String} {type : ValueType}
    {uniqueReg : Bool} {s : Symbol} (h : t.declare name type uniqueReg = .ok (s, u)) :
    (t.rename f).declare (f name) type uniqueReg = .ok (s.rename f, u.rename f) := by
  unfold declare at h ⊢
  rw [lookup_rename hf]
  cases hlookup : t.lookup name with
  | some s' =>
    rw [hlookup] at h
    cases h
  | none =>
    rw [hlookup] at h
    cases h
    simp [rename, Symbol.rename]

end SymbolTable

/-! Operands -/

theorem Key.renameMore_eq_map (es : List Expression) :
    Key.renameMore f es = es.map (Expression.rename f) := by
  induction es with
  | nil => simp [Key.renameMore]
  | cons e es ih => simp [Key.renameMore, ih]

theorem Key.rename_eq (first : Expression) (more : List Expression) :
    (Key.mk first more).rename f = ⟨first.rename f, more.map (Expression.rename f)⟩ := by
  rw [Key.rename, Key.renameMore_eq_map]

theorem Target.rename_eq (t : Target) : t.rename f =
    { t with storage := t.storage.rename f, key := t.key.map (Key.rename f) } := by
  obtain ⟨storage, _ | key, flags, namedAs, lexName⟩ := t <;> simp [Target.rename]

@[simp]
theorem Expression.rename_target (t : Target) :
    (Expression.target t).rename f = .target (t.rename f) := by
  rw [Expression.rename]

@[simp]
theorem Expression.rename_constant (c : Constant) :
    (Expression.constant c).rename f = .constant (c.rename f) := by
  rw [Expression.rename]

@[simp]
theorem Expression.rename_key (k : Key) : (Expression.key k).rename f = .key (k.rename f) := by
  rw [Expression.rename]

@[simp]
theorem Expression.rename_label (name : String) :
    (Expression.label name).rename f = .label (f name) := by
  rw [Expression.rename]

@[simp]
theorem Target.rename_register (type : ValueType) (number : Nat) :
    (register type number).rename f = register type number := by
  simp [Target.rename_eq, register, ofStorage, Storage.rename]

@[simp]
theorem Target.rename_ofSymbol (s : Symbol) : (ofSymbol s).rename f = ofSymbol (s.rename f) := by
  simp [Target.rename_eq, ofSymbol, ofStorage, Storage.rename, Symbol.rename]

theorem Storage.same_rename (hf : f.Injective) (s t : Storage) :
    (s.rename f).same (t.rename f) = s.same t := by
  cases s <;> cases t <;> simp [Storage.rename, Storage.same, hf.eq_iff]

theorem Constant.same_rename (hf : f.Injective) (a b : Constant) :
    (a.rename f).same (b.rename f) = a.same b := by
  obtain ⟨m, v⟩ := a
  obtain ⟨n, w⟩ := b
  have hname : (m.map f == n.map f) = (m == n) := by
    rw [Bool.eq_iff_iff, beq_iff_eq, beq_iff_eq, (Option.map_injective hf).eq_iff]
  simp [Constant.same, Constant.rename, hname]

mutual

theorem Target.same_rename (hf : f.Injective) (s t : Target) :
    (s.rename f).same (t.rename f) = s.same t := by
  match s, t with
  | ⟨_, none, _, _, _⟩, ⟨_, none, _, _, _⟩ =>
    simp only [Target.rename, Target.same, Storage.same_rename hf]
  | ⟨_, some k, _, _, _⟩, ⟨_, some k', _, _, _⟩ =>
    simp only [Target.rename, Target.same, Storage.same_rename hf, Key.same_rename hf k k']
  | ⟨_, none, _, _, _⟩, ⟨_, some _, _, _, _⟩ => simp [Target.rename, Target.same]
  | ⟨_, some _, _, _, _⟩, ⟨_, none, _, _, _⟩ => simp [Target.rename, Target.same]

theorem Key.same_rename (hf : f.Injective) (k l : Key) :
    (k.rename f).same (l.rename f) = k.same l := by
  match k, l with
  | ⟨e, more⟩, ⟨e', more'⟩ =>
    simp only [Key.rename, Key.same, Expression.same_rename hf e e',
      Key.sameMore_rename hf more more']

theorem Key.sameMore_rename (hf : f.Injective) (es es' : List Expression) :
    Key.sameMore (Key.renameMore f es) (Key.renameMore f es') = Key.sameMore es es' := by
  match es, es' with
  | [], [] => rfl
  | e :: rest, e' :: rest' =>
    simp only [Key.renameMore, Key.sameMore, Expression.same_rename hf e e',
      Key.sameMore_rename hf rest rest']
  | [], _ :: _ => simp [Key.renameMore, Key.sameMore]
  | _ :: _, [] => simp [Key.renameMore, Key.sameMore]

theorem Expression.same_rename (hf : f.Injective) (e e' : Expression) :
    (e.rename f).same (e'.rename f) = e.same e' := by
  match e, e' with
  | .target t, .target t' =>
    simp only [Expression.rename, Expression.same, Target.same_rename hf t t']
  | .constant c, .constant c' =>
    simp only [Expression.rename, Expression.same, Constant.same_rename hf]
  | .key k, .key k' => simp only [Expression.rename, Expression.same, Key.same_rename hf k k']
  | .label n, .label n' => simp [Expression.rename, Expression.same, hf.eq_iff]
  | .target _, .constant _ | .target _, .key _ | .target _, .label _ | .constant _, .target _
  | .constant _, .key _ | .constant _, .label _ | .key _, .target _ | .key _, .constant _
  | .key _, .label _ | .label _, .target _ | .label _, .constant _ | .label _, .key _ =>
    simp [Expression.rename, Expression.same]

end

@[simp]
theorem Constant.rename_ofValue (value : ConstantValue) :
    (ofValue value).rename f = ofValue value := rfl

@[simp]
theorem Constant.rename_named (name : String) (value : ConstantValue) :
    (named name value).rename f = named (f name) value := rfl

@[simp]
theorem Expression.rename_int (n : Int64) : (int n).rename f = int n := by
  simp [int]

@[simp]
theorem Expression.rename_num (x : Float) : (num x).rename f = num x := by
  simp [num]

@[simp]
theorem Expression.rename_string (s : String) : (string s).rename f = string s := by
  simp [string]

/-- What is computed from constants has no name. -/
theorem Constant.rename_of_fold {a b c : Constant} {op : BinaryOp} (h : fold a op b = .ok c) :
    c.rename f = c := by
  unfold fold at h
  split at h
  · cases h
    rfl
  all_goals cases h

/-! Instructions -/

namespace Instruction

theorem rename_of (opcode : String) (operands : List Expression) :
    (of opcode operands).rename f = of opcode (operands.map (Expression.rename f)) := rfl

theorem dropRepeated?_rename (hf : f.Injective) (operands : List Expression) :
    dropRepeated? (operands.map (Expression.rename f)) =
      (dropRepeated? operands).map (List.map (Expression.rename f)) := by
  match operands with
  | [] | [.target _] | [.constant _] | [.key _] | [.label _] => rfl
  | .constant _ :: _ :: _ | .key _ :: _ :: _ | .label _ :: _ :: _ => rfl
  | .target _ :: .constant _ :: _ | .target _ :: .key _ :: _ | .target _ :: .label _ :: _ => rfl
  | [.target _, .target _] => rfl
  | .target d :: .target s :: e :: rest =>
    simp only [List.map_cons, Expression.rename, dropRepeated?, Target.same_rename hf]
    split <;> rfl

theorem simplify_rename (r : Reduction) (i : Instruction) :
    simplify r (i.rename f) = ((simplify r i).1, (simplify r i).2.rename f) := by
  obtain ⟨label, opcode, operands⟩ := i
  match operands with
  | [] | [_] => rfl
  | _ :: e :: _ :: _ => cases e <;> rfl
  | [_, .target _] | [_, .key _] | [_, .label _] => rfl
  | [d, .constant c] =>
    have hequals (n : Int64) : (c.rename f).numericEquals n = c.numericEquals n := rfl
    simp only [simplify, rename, List.map_cons, List.map_nil, Expression.rename, hequals]
    split <;> rfl

/-- The cheaper form of an instruction does not depend on the names in it. -/
theorem reduce_rename (hf : f.Injective) (i : Instruction) :
    (i.rename f).reduce = (i.reduce.1, i.reduce.2.rename f) := by
  unfold reduce
  have hopcode : (i.rename f).opcode = i.opcode := rfl
  have hoperands : (i.rename f).operands = i.operands.map (Expression.rename f) := rfl
  rw [hopcode, hoperands, dropRepeated?_rename hf]
  split
  · cases dropRepeated? i.operands with
    | none => exact simplify_rename _ i
    | some operands => exact simplify_rename _ { i with operands }
  · rfl

end Instruction

theorem Statement.rename_labelled (s : Statement) (label : Option String) :
    (s.labelled label).rename f = (s.rename f).labelled (label.map f) := by
  cases label <;> cases s <;> rfl

/-! The check of labels -/

theorem Instruction.labels_rename (i : Instruction) : (i.rename f).labels = i.labels.map f := by
  have hlabel (e : Expression) : (e.rename f).asLabel? = e.asLabel?.map f := by
    cases e <;> simp [Expression.rename, Expression.asLabel?]
  simp only [labels, rename, List.filterMap_map, List.map_filterMap]
  exact List.filterMap_congr fun e _ => hlabel e

namespace Subroutine

theorem strayLabels_rename (s : Subroutine) :
    (s.rename f).strayLabels = s.strayLabels.map (LabelFault.rename f) := by
  simp only [strayLabels, rename, Table.rename, List.filterMap_map, List.map_filterMap,
    List.length_map]
  refine List.filterMap_congr fun entry _ => ?_
  simp only [Function.comp_apply, Prod.map, id]
  split <;> rfl

theorem unknownLabels_rename (hf : f.Injective) (s : Subroutine) (index : Nat) (st : Statement) :
    (s.rename f).unknownLabels index (st.rename f) =
      (s.unknownLabels index st).map (LabelFault.rename f) := by
  cases st with
  | invocation => rfl
  | instruction i =>
    have hcontains (l : String) : (s.rename f).labels.contains (f l) = s.labels.contains l :=
      Table.contains_rename hf s.labels l
    simp only [Statement.rename, unknownLabels, Instruction.labels_rename, List.filter_map,
      List.map_map, Function.comp_def, hcontains]
    rfl

/-- Whether a label is in order does not depend on its name. -/
theorem labelFaults_rename (hf : f.Injective) (s : Subroutine) :
    (s.rename f).labelFaults = s.labelFaults.map (LabelFault.rename f) := by
  have hunknown : (s.statements.map (Statement.rename f)).mapIdx (s.rename f).unknownLabels =
      (s.statements.mapIdx s.unknownLabels).map (List.map (LabelFault.rename f)) := by
    refine List.ext_getElem (by simp) fun i _ _ => ?_
    simp only [List.getElem_mapIdx, List.getElem_map, unknownLabels_rename hf]
  rw [labelFaults, labelFaults, List.map_append, List.map_flatten, ← hunknown, strayLabels_rename]
  rfl

end Subroutine

theorem CompilationUnit.labelFaults_rename (hf : f.Injective) (u : CompilationUnit) :
    (u.rename f).labelFaults = u.labelFaults.map (LabelFault.rename f) := by
  simp only [labelFaults, rename, List.flatMap_map, Subroutine.labelFaults_rename hf,
    List.map_flatMap]

end

/-! Names that a renaming leaves alone -/

/-- Where the first map changes nothing, the other two do the same. -/
def FixedAlike {α : Type} (p q r : α → α) : Prop := ∀ a, p a = a → q a = r a

namespace FixedAlike

variable {α β : Type} {p q r : α → α} {p' q' r' : β → β} {f g h : String → String}

theorem list (hp : FixedAlike p q r) : FixedAlike (List.map p) (List.map q) (List.map r) := by
  intro as has
  induction as with
  | nil => rfl
  | cons a as ih =>
    obtain ⟨ha, has⟩ := List.cons.inj has
    rw [List.map_cons, List.map_cons, hp a ha, ih has]

theorem option (hp : FixedAlike p q r) :
    FixedAlike (Option.map p) (Option.map q) (Option.map r) := by
  rintro (_ | a) ha
  · rfl
  · exact congrArg some (hp a (Option.some.inj ha))

theorem prod (hp : FixedAlike p q r) (hp' : FixedAlike p' q' r') :
    FixedAlike (Prod.map p p') (Prod.map q q') (Prod.map r r') := fun _ ha =>
  Prod.ext (hp _ (congrArg Prod.fst ha)) (hp' _ (congrArg Prod.snd ha))

theorem table (hf : FixedAlike f g h) (hp : FixedAlike p q r) :
    FixedAlike (Table.rename f p) (Table.rename g q) (Table.rename h r) := fun t ht =>
  congrArg Table.mk ((hf.prod hp).list t.entries (congrArg Table.entries ht))

theorem storage (hf : FixedAlike f g h) :
    FixedAlike (Storage.rename f) (Storage.rename g) (Storage.rename h) := by
  rintro (⟨t, n⟩ | ⟨n, t, r⟩) hs
  · rfl
  · simp only [Storage.rename, Storage.symbol.injEq, and_true] at hs ⊢
    exact hf n hs

theorem constant (hf : FixedAlike f g h) :
    FixedAlike (Constant.rename f) (Constant.rename g) (Constant.rename h) := by
  rintro ⟨name, value⟩ hc
  simp only [Constant.rename, Constant.mk.injEq, and_true] at hc ⊢
  exact hf.option name hc

mutual

theorem target (hf : FixedAlike f g h) (t : Target) (ht : t.rename f = t) :
    t.rename g = t.rename h := by
  match t with
  | ⟨storage, none, flags, namedAs, lexName⟩ =>
    simp only [Target.rename, Target.mk.injEq, and_true] at ht ⊢
    exact hf.storage storage ht
  | ⟨storage, some key, flags, namedAs, lexName⟩ =>
    simp only [Target.rename, Target.mk.injEq, Option.some.injEq, and_true] at ht ⊢
    exact ⟨hf.storage storage ht.1, FixedAlike.key hf key ht.2⟩

theorem key (hf : FixedAlike f g h) (k : Key) (hk : k.rename f = k) :
    k.rename g = k.rename h := by
  match k with
  | ⟨first, more⟩ =>
    simp only [Key.rename, Key.mk.injEq] at hk ⊢
    exact ⟨FixedAlike.expression hf first hk.1, FixedAlike.more hf more hk.2⟩

theorem more (hf : FixedAlike f g h) (es : List Expression) (hes : Key.renameMore f es = es) :
    Key.renameMore g es = Key.renameMore h es := by
  match es with
  | [] => rfl
  | e :: rest =>
    simp only [Key.renameMore, List.cons.injEq] at hes ⊢
    exact ⟨FixedAlike.expression hf e hes.1, FixedAlike.more hf rest hes.2⟩

theorem expression (hf : FixedAlike f g h) (e : Expression) (he : e.rename f = e) :
    e.rename g = e.rename h := by
  match e with
  | .target t =>
    simp only [Expression.rename, Expression.target.injEq] at he ⊢
    exact FixedAlike.target hf t he
  | .constant c =>
    simp only [Expression.rename, Expression.constant.injEq] at he ⊢
    exact hf.constant c he
  | .key k =>
    simp only [Expression.rename, Expression.key.injEq] at he ⊢
    exact FixedAlike.key hf k he
  | .label n =>
    simp only [Expression.rename, Expression.label.injEq] at he ⊢
    exact hf n he

end

theorem argument (hf : FixedAlike f g h) :
    FixedAlike (Argument.rename f) (Argument.rename g) (Argument.rename h) := by
  rintro ⟨value, flags, namedAs⟩ ha
  simp only [Argument.rename, Argument.mk.injEq, and_true] at ha ⊢
  exact hf.expression value ha

theorem statement (hf : FixedAlike f g h) :
    FixedAlike (Statement.rename f) (Statement.rename g) (Statement.rename h) := by
  have hexpression : FixedAlike (Expression.rename f) (Expression.rename g) (Expression.rename h) :=
    hf.expression
  have htarget : FixedAlike (Target.rename f) (Target.rename g) (Target.rename h) := hf.target
  rintro (⟨label, opcode, operands⟩ | ⟨kind, callee, method, retcont, arguments, results, label⟩) hs
  · simp only [Statement.rename, Instruction.rename, Statement.instruction.injEq,
      Instruction.mk.injEq, true_and] at hs ⊢
    exact ⟨hf.option label hs.1, hexpression.list operands hs.2⟩
  · simp only [Statement.rename, Invocation.rename, Statement.invocation.injEq,
      Invocation.mk.injEq, true_and] at hs ⊢
    obtain ⟨hcallee, hmethod, hretcont, harguments, hresults, hlabel⟩ := hs
    exact ⟨hexpression.option callee hcallee, hexpression.option method hmethod,
      htarget.option retcont hretcont, hf.argument.list arguments harguments,
      htarget.list results hresults, hf.option label hlabel⟩

theorem symbols (hf : FixedAlike f g h) :
    FixedAlike (SymbolTable.rename f) (SymbolTable.rename g) (SymbolTable.rename h) := by
  have hsymbol : FixedAlike (Symbol.rename f) (Symbol.rename g) (Symbol.rename h) := by
    rintro ⟨name, type, register, uniqueReg⟩ hs
    simp only [Symbol.rename, Symbol.mk.injEq, and_true] at hs ⊢
    exact hf name hs
  rintro ⟨symbols, count⟩ ht
  simp only [SymbolTable.rename, SymbolTable.mk.injEq, and_true] at ht ⊢
  exact hsymbol.list symbols ht

theorem subroutine (hf : FixedAlike f g h) :
    FixedAlike (Subroutine.rename f) (Subroutine.rename g) (Subroutine.rename h) := by
  have htarget : FixedAlike (Target.rename f) (Target.rename g) (Target.rename h) := hf.target
  have hparameter : FixedAlike (Parameter.rename f) (Parameter.rename g) (Parameter.rename h) := by
    rintro ⟨target, invocantType⟩ hp
    simp only [Parameter.rename, Parameter.mk.injEq, and_true] at hp ⊢
    exact htarget target hp
  have hlexical : FixedAlike (Lexical.rename f) (Lexical.rename g) (Lexical.rename h) := by
    rintro ⟨name, target⟩ hl
    simp only [Lexical.rename, Lexical.mk.injEq, true_and] at hl ⊢
    exact htarget target hl
  intro s hs
  obtain ⟨name, flags, outer, vtable, lexid, instanceof, namespaceKey, parameters, lexicals,
    constants, statements, labels, symbols⟩ := s
  simp only [Subroutine.rename, Subroutine.mk.injEq, true_and] at hs ⊢
  obtain ⟨hparameters, hlexicals, hconstants, hstatements, hlabels, hsymbols⟩ := hs
  exact ⟨hparameter.list parameters hparameters, hlexical.list lexicals hlexicals,
    hf.table hf.constant constants hconstants, hf.statement.list statements hstatements,
    hf.table (fun _ _ => rfl) labels hlabels, hf.symbols symbols hsymbols⟩

theorem labelFault (hf : FixedAlike f g h) :
    FixedAlike (LabelFault.rename f) (LabelFault.rename g) (LabelFault.rename h) := by
  rintro (⟨sub, label, statement⟩ | ⟨sub, label, index, count⟩) hfault
  · simp only [LabelFault.rename, LabelFault.undefined.injEq, true_and, and_true] at hfault ⊢
    exact hf label hfault
  · simp only [LabelFault.rename, LabelFault.outOfRange.injEq, true_and, and_true] at hfault ⊢
    exact hf label hfault

/-- Two renamings that do the same with the names that a third one leaves alone do the same with a
unit that it leaves alone. -/
theorem unit (hf : FixedAlike f g h) :
    FixedAlike (CompilationUnit.rename f) (CompilationUnit.rename g)
      (CompilationUnit.rename h) := by
  rintro ⟨subroutines, globalConstants, constants, namespaceKey, hll, hllMap, libraries⟩ hu
  simp only [CompilationUnit.rename, CompilationUnit.mk.injEq, and_true] at hu ⊢
  obtain ⟨hsubroutines, hglobal, hconstants⟩ := hu
  exact ⟨hf.subroutine.list subroutines hsubroutines, hf.table hf.constant globalConstants hglobal,
    hf.table hf.constant constants hconstants⟩

end FixedAlike
end PirFrontend
