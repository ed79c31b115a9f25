import PirFrontend.Code.Symbol
import PirFrontend.Code.Table

/-!
Tables. What is found under a name is what was entered there, and a name that is entered leaves all
others as they were. What a table of symbols declares once it declares from then on.
-/
namespace PirFrontend
namespace Table

variable {α : Type}

theorem put_of_lookup_eq_none {name : String} {entries : List (String × α)}
    (h : entries.lookup name = none) (value : α) :
    put name value entries = entries ++ [(name, value)] := by
  induction entries with
  | nil => rfl
  | cons entry entries ih =>
    obtain ⟨n, v⟩ := entry
    rw [List.lookup_cons] at h
    split at h
    next => cases h
    next hne =>
      have hne' : n ≠ name := by
        intro rfl
        simp at hne
      rw [put, if_neg hne', ih h, List.cons_append]

/-- A new name is entered at the end. -/
theorem entries_insert_of_new {t : Table α} {name : String} (h : t.contains name = false)
    (value : α) : (t.insert name value).entries = t.entries ++ [(name, value)] :=
  put_of_lookup_eq_none (by simpa [contains, get?] using h) value

theorem prefix_insert {t : Table α} {name : String} (h : t.contains name = false) (value : α) :
    t.entries <+: (t.insert name value).entries := by
  rw [entries_insert_of_new h]
  exact List.prefix_append _ _

theorem mem_of_get? {t : Table α} {name : String} {value : α} (h : t.get? name = some value) :
    (name, value) ∈ t.entries := by
  rw [get?, List.lookup_eq_some_iff] at h
  obtain ⟨front, back, heq, -⟩ := h
  rw [heq]
  exact List.mem_append_right front List.mem_cons_self

theorem get?_of_mem {t : Table α} {name : String} {value : α}
    (hnodup : (t.entries.map (·.1)).Nodup) (h : (name, value) ∈ t.entries) :
    t.get? name = some value := by
  obtain ⟨front, back, heq⟩ := List.append_of_mem h
  rw [get?, List.lookup_eq_some_iff]
  refine ⟨front, back, heq, ?_⟩
  -- The name stands nowhere in front, for it stands here.
  intro entry hentry
  rw [heq, List.map_append, List.nodup_append] at hnodup
  have hne := hnodup.2.2 entry.1 (List.mem_map_of_mem hentry) name (by simp)
  exact bne_iff_ne.mpr fun h => hne h.symm

/-- Whatever is in the table after a name was entered was there before, or is the new entry. -/
theorem mem_insert {t : Table α} {name : String} {value : α} {entry : String × α}
    (h : entry ∈ (t.insert name value).entries) : entry ∈ t.entries ∨ entry = (name, value) := by
  obtain ⟨entries⟩ := t
  change entry ∈ put name value entries at h
  induction entries with
  | nil => exact .inr (List.mem_singleton.mp h)
  | cons first entries ih =>
    obtain ⟨n, v⟩ := first
    rw [put] at h
    split at h
    next heq =>
      obtain rfl | h := List.mem_cons.mp h
      · exact .inr (by rw [heq])
      · exact .inl (List.mem_cons_of_mem _ h)
    next =>
      obtain rfl | h := List.mem_cons.mp h
      · exact .inl List.mem_cons_self
      · exact (ih h).imp_left (List.mem_cons_of_mem _)

theorem get?_eq_none {t : Table α} {name : String} (h : t.contains name = false) :
    ∀ entry ∈ t.entries, entry.1 ≠ name := by
  have hnone : t.entries.lookup name = none := by simpa [contains, get?] using h
  rw [List.lookup_eq_none_iff] at hnone
  intro entry hentry heq
  have := hnone entry hentry
  simp [heq] at this

/-- What is entered in a table is entered in another as well. -/
def Within (t t' : Table α) : Prop :=
  ∀ name value, t.get? name = some value → t'.get? name = some value

theorem Within.refl (t : Table α) : t.Within t := fun _ _ h => h

theorem within_insert {t : Table α} {name : String} (h : t.contains name = false) (value : α) :
    t.Within (t.insert name value) := by
  intro other v hv
  rw [get?] at hv ⊢
  rw [entries_insert_of_new h, List.lookup_append, hv, Option.some_or]

end Table

namespace SymbolTable

/-- What is declared in a table is declared in another as well. -/
def Within (t t' : SymbolTable) : Prop :=
  ∀ name symbol, t.lookup name = some symbol → t'.lookup name = some symbol

theorem Within.refl (t : SymbolTable) : t.Within t := fun _ _ h => h

variable {t t' : SymbolTable} {name : String} {symbol : Symbol}

theorem name_of_lookup (h : t.lookup name = some symbol) : symbol.name = name := by
  simpa using List.find?_some h

/-- A name that is declared leaves all others as they were, and can be looked up. -/
theorem declare_ok {type : ValueType} {uniqueReg : Bool}
    (h : t.declare name type uniqueReg = .ok (symbol, t')) :
    t.Within t' ∧ t'.lookup name = some symbol := by
  unfold declare at h
  split at h
  next => cases h
  next hnone =>
    cases h
    unfold Within lookup
    unfold lookup at hnone
    constructor
    · intro other s hs
      rw [List.find?_append, hs, Option.some_or]
    · rw [List.find?_append, hnone, Option.none_or]
      exact List.find?_cons_of_pos (by simp)

/-- A name is declared behind all others. -/
theorem declare_prefix {type : ValueType} {uniqueReg : Bool}
    (h : t.declare name type uniqueReg = .ok (symbol, t')) : t.symbols <+: t'.symbols := by
  unfold declare at h
  split at h
  · cases h
  · cases h
    exact List.prefix_append _ _

end SymbolTable
end PirFrontend
