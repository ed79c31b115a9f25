/-!
Tables that remember their order. A name is entered once; entering it again replaces its value
and leaves it at its place.
-/
namespace PirFrontend

/-- Values by name, in the order in which the names were first entered. -/
structure Table (α : Type) where
  entries : List (String × α)

namespace Table

variable {α : Type}

def empty : Table α := ⟨[]⟩

/-- The value under a name. -/
def get? (t : Table α) (name : String) : Option α := t.entries.lookup name

/-- Whether a name is entered. -/
def contains (t : Table α) (name : String) : Bool := (t.get? name).isSome

/-- Replaces the value of a name, or puts the name at the end. -/
def put (name : String) (value : α) : List (String × α) → List (String × α)
  | [] => [(name, value)]
  | (n, v) :: rest => if n = name then (n, value) :: rest else (n, v) :: put name value rest

def insert (t : Table α) (name : String) (value : α) : Table α := ⟨put name value t.entries⟩

/-- The table of a list of pairs, entered one after the other. -/
def ofList (pairs : List (String × α)) : Table α :=
  pairs.foldl (fun t p => t.insert p.1 p.2) empty

/-- The values in order. -/
def values (t : Table α) : List α := t.entries.map (·.2)

end Table
end PirFrontend
