import PirFrontend.Proofs.Tables

/-!
Registers of declared names. However declarations of different types follow one another, and
whichever of them are refused, each type counts its own registers from zero without a gap: the next
register of a type is the number of symbols that the table has of it.
-/
namespace PirFrontend

/-- A name to be declared, and what as. -/
structure Declaration where
  name : String
  type : ValueType
  uniqueReg : Bool
  deriving DecidableEq, Repr

/-- What the symbol was declared as. -/
def Symbol.declaration (s : Symbol) : Declaration := ⟨s.name, s.type, s.uniqueReg⟩

theorem RegisterCount.of_bump (n : RegisterCount) (type type' : ValueType) :
    (n.bump type).of type' = if type = type' then n.of type' + 1 else n.of type' := by
  cases type <;> cases type' <;> rfl

namespace SymbolTable

/-- Declares a name and answers with its symbol. A table that refuses it stays the same. -/
def enter (t : SymbolTable) (d : Declaration) : Except DuplicateSymbol Symbol × SymbolTable :=
  match t.declare d.name d.type d.uniqueReg with
  | .ok (s, t') => (.ok s, t')
  | .error e => (.error e, t)

/-- Declares names one after the other, refused or not. -/
def enterAll (t : SymbolTable) :
    List Declaration → List (Except DuplicateSymbol Symbol) × SymbolTable
  | [] => ([], t)
  | d :: ds =>
    let (answer, t) := t.enter d
    let (answers, t) := t.enterAll ds
    (answer :: answers, t)

/-- The symbols of one type, in order. -/
def symbolsOf (t : SymbolTable) (type : ValueType) : List Symbol :=
  t.symbols.filter (·.type = type)

/-- The symbol that a new name gets. -/
def fresh (t : SymbolTable) (d : Declaration) : Symbol :=
  ⟨d.name, d.type, some (t.count.of d.type), d.uniqueReg⟩

variable {t : SymbolTable}

/-! One declaration -/

theorem enter_of_declared {d : Declaration} {s : Symbol} (h : t.lookup d.name = some s) :
    t.enter d = (.error ⟨d.name, s.type⟩, t) := by
  simp only [enter, declare, h]

theorem enter_of_new {d : Declaration} (h : t.lookup d.name = none) :
    t.enter d = (.ok (t.fresh d), ⟨t.symbols ++ [t.fresh d], t.count.bump d.type⟩) := by
  simp only [enter, declare, h]
  rfl

/-- A name that is not yet declared is found as it is declared now; all others as before. -/
theorem lookup_enter (t : SymbolTable) (d : Declaration) (name : String) :
    (t.enter d).2.lookup name =
      (t.lookup name).or (if d.name = name then some (t.fresh d) else none) := by
  cases h : t.lookup d.name with
  | some s =>
    rw [enter_of_declared h]
    split
    next heq => rw [← heq, h, Option.some_or]
    next => rw [Option.or_none]
  | none =>
    rw [enter_of_new h]
    unfold lookup
    rw [List.find?_append, List.find?_singleton]
    simp [fresh]

/-- The symbols of each type have the registers from zero on, up to the count of the type. -/
def Dense (t : SymbolTable) : Prop :=
  ∀ type, (t.symbolsOf type).map Symbol.register = (List.range (t.count.of type)).map some

theorem dense_empty : Dense .empty := by
  intro type
  cases type <;> rfl

theorem Dense.enter (h : t.Dense) (d : Declaration) : (t.enter d).2.Dense := by
  cases hlookup : t.lookup d.name with
  | some s =>
    rw [enter_of_declared hlookup]
    exact h
  | none =>
    rw [enter_of_new hlookup]
    intro type
    have htype := h type
    unfold symbolsOf at htype ⊢
    rw [RegisterCount.of_bump, List.filter_append, List.map_append, htype]
    by_cases hd : d.type = type
    · subst hd
      simp [fresh, List.range_succ]
    · simp [fresh, hd]

/-! Many declarations -/

theorem enterAll_cons (t : SymbolTable) (d : Declaration) (ds : List Declaration) :
    t.enterAll (d :: ds) =
      ((t.enter d).1 :: ((t.enter d).2.enterAll ds).1, ((t.enter d).2.enterAll ds).2) := rfl

theorem Dense.enterAll (h : t.Dense) (ds : List Declaration) : (t.enterAll ds).2.Dense := by
  induction ds generalizing t with
  | nil => exact h
  | cons d ds ih => exact ih (h.enter d)

theorem lookup_enterAll (t : SymbolTable) (ds : List Declaration) (name : String) :
    ((t.enterAll ds).2.lookup name).map Symbol.declaration =
      ((t.lookup name).map Symbol.declaration).or (ds.find? (·.name = name)) := by
  induction ds generalizing t with
  | nil => simp [SymbolTable.enterAll]
  | cons d ds ih =>
    rw [enterAll_cons, ih, lookup_enter, Option.map_or, Option.or_assoc, List.find?_cons]
    congr 1
    by_cases hd : d.name = name
    · subst hd
      simp [Symbol.declaration, fresh]
    · simp [hd]

theorem symbols_enter (t : SymbolTable) (d : Declaration) :
    (t.enter d).2.symbols = t.symbols ++ (t.enter d).1.toOption.toList := by
  cases h : t.lookup d.name with
  | some s => simp [enter_of_declared h, Except.toOption]
  | none => simp [enter_of_new h, Except.toOption]

/-- The table lists the symbols in the order in which they were answered. -/
theorem symbols_enterAll (t : SymbolTable) (ds : List Declaration) :
    (t.enterAll ds).2.symbols = t.symbols ++ (t.enterAll ds).1.filterMap Except.toOption := by
  induction ds generalizing t with
  | nil => simp [SymbolTable.enterAll]
  | cons d ds ih =>
    rw [enterAll_cons, ih, symbols_enter, List.filterMap_cons, List.append_assoc]
    congr 1
    cases (t.enter d).1.toOption <;> rfl

theorem enterAll_append (t : SymbolTable) (front back : List Declaration) :
    t.enterAll (front ++ back) =
      ((t.enterAll front).1 ++ ((t.enterAll front).2.enterAll back).1,
        ((t.enterAll front).2.enterAll back).2) := by
  induction front generalizing t with
  | nil => rfl
  | cons d front ih => rw [List.cons_append, enterAll_cons, ih, enterAll_cons]; rfl

theorem length_enterAll (t : SymbolTable) (ds : List Declaration) :
    (t.enterAll ds).1.length = ds.length := by
  induction ds generalizing t with
  | nil => rfl
  | cons d ds ih => rw [enterAll_cons, List.length_cons, ih, List.length_cons]

/-- What a table of symbols is after these declarations were answered like this. -/
structure Allocated (ds : List Declaration) (answers : List (Except DuplicateSymbol Symbol))
    (t : SymbolTable) : Prop where
  /-- Among the symbols of a type, counted from zero, each has the register of its place. -/
  dense : ∀ type k (s : Symbol), (t.symbolsOf type)[k]? = some s → s.register = some k
  /-- The next register of a type is the number of its symbols. -/
  counted : ∀ type, t.count.of type = (t.symbolsOf type).length
  /-- Symbols that share a register are of different types. -/
  apart : t.symbols.Pairwise fun s s' => s.register = s'.register → s.type ≠ s'.type
  /-- A name is found as it was declared first, and only if it was declared. -/
  found : ∀ name, (t.lookup name).map Symbol.declaration = ds.find? (·.name = name)
  /-- The symbols stand in the order of the declarations that were not refused. -/
  ordered : t.symbols = answers.filterMap Except.toOption
  /-- A name that was declared before is refused with the type it has, and the whole table stays the
  same; any other name gets a symbol. -/
  refused : ∀ front d back, ds = front ++ d :: back →
    let before := (empty.enterAll front).2
    answers[front.length]? = some (before.enter d).1 ∧
    match front.find? (·.name = d.name) with
    | some first => before.enter d = (.error ⟨d.name, first.type⟩, before)
    | none => (before.enter d).1 = .ok (before.fresh d)

theorem Dense.register (h : t.Dense) {type : ValueType} {k : Nat} {s : Symbol}
    (hs : (t.symbolsOf type)[k]? = some s) : s.register = some k := by
  have hget : ((t.symbolsOf type).map Symbol.register)[k]? = some s.register := by
    rw [List.getElem?_map, hs, Option.map_some]
  rw [h type, List.getElem?_map, Option.map_eq_some_iff] at hget
  obtain ⟨n, hn, hregister⟩ := hget
  obtain ⟨hk, rfl⟩ := List.getElem?_eq_some_iff.1 hn
  rw [← hregister, List.getElem_range]

theorem Dense.count (h : t.Dense) (type : ValueType) :
    t.count.of type = (t.symbolsOf type).length := by
  have hlength := congrArg List.length (h type)
  rw [List.length_map, List.length_map, List.length_range] at hlength
  exact hlength.symm

theorem Dense.apart (h : t.Dense) :
    t.symbols.Pairwise fun s s' => s.register = s'.register → s.type ≠ s'.type := by
  rw [List.pairwise_iff_getElem]
  intro i j hi hj hij hregister htype
  -- Of one type no register is given twice, for they are counted.
  have hnodup : ((t.symbolsOf t.symbols[j].type).map Symbol.register).Nodup := by
    rw [h, List.Nodup, List.pairwise_map]
    exact List.nodup_range.imp fun hne heq => hne (Option.some.inj heq)
  rw [List.Nodup, List.pairwise_map, symbolsOf, List.pairwise_filter,
    List.pairwise_iff_getElem] at hnodup
  exact hnodup i j hi hj hij (by simp [htype]) (by simp) hregister

theorem enter_refused (front : List Declaration) (d : Declaration) :
    let before := (empty.enterAll front).2
    match front.find? (·.name = d.name) with
    | some first => before.enter d = (.error ⟨d.name, first.type⟩, before)
    | none => (before.enter d).1 = .ok (before.fresh d) := by
  intro before
  have hfound : (before.lookup d.name).map Symbol.declaration = front.find? (·.name = d.name) :=
    lookup_enterAll .empty front d.name
  cases hlookup : before.lookup d.name with
  | some s =>
    rw [← hfound, hlookup]
    exact enter_of_declared hlookup
  | none =>
    rw [← hfound, hlookup]
    rw [enter_of_new hlookup]
    rfl

/-- Whatever is declared, in whatever order: the registers of each type are its places among the
symbols of the type, a name keeps its first declaration, and a declaration that is refused changes
nothing. -/
theorem enterAll_allocated (ds : List Declaration) :
    Allocated ds (empty.enterAll ds).1 (empty.enterAll ds).2 := by
  have hdense := dense_empty.enterAll ds
  refine ⟨fun _ _ _ => hdense.register, hdense.count, hdense.apart, ?_, ?_, ?_⟩
  · intro name
    exact lookup_enterAll .empty ds name
  · exact symbols_enterAll .empty ds
  · rintro front d back rfl
    refine ⟨?_, enter_refused front d⟩
    rw [enterAll_append, ← length_enterAll .empty front, List.getElem?_append_right (Nat.le_refl _),
      Nat.sub_self]
    rfl

end SymbolTable
end PirFrontend
