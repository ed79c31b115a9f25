import PirFrontend.Code.FlagSet
import PirFrontend.Code.Symbol
import PirFrontend.Value.Constant

/-!
Operands. A target is a place that can be assigned to, perhaps indexed by a key; an expression is
a target, a constant, a key on its own, or the label of a branch. Targets, keys and expressions
contain one another.

Two targets are the same if they mean the same storage under the same key. Their flags, their
alias and their lexical name only say how they are used.
-/
namespace PirFrontend

/-- The storage behind a target. -/
inductive Storage where
  /-- A register such as `$P0`. -/
  | register (type : ValueType) (number : Nat)
  /-- A name. It has no register if it was not declared in this subroutine. -/
  | symbol (name : String) (type : ValueType) (register : Option Nat)
  deriving DecidableEq, Repr

namespace Storage

def type : Storage → ValueType
  | register t _ => t
  | symbol _ t _ => t

/-- The name, if the storage has one. -/
def name? : Storage → Option String
  | register .. => none
  | symbol n _ _ => some n

def render : Storage → String
  | register t n => String.ofList ('$' :: t.registerLetter?.getD '?' :: Text.digits 10 n)
  | symbol n _ _ => n

/-- Whether two storages are the same. Names are compared as names. -/
def same : Storage → Storage → Bool
  | register t n, register t' n' => t == t' && n == n'
  | symbol n _ _, symbol n' _ _ => n == n'
  | _, _ => false

end Storage

mutual

/-- A place that can be assigned to. -/
structure Target where
  storage : Storage
  key : Option Key
  flags : FlagSet TargetFlag
  /-- The name that `:named` gives it. -/
  namedAs : Option String
  /-- The lexical name it is bound to. -/
  lexName : Option String

/-- The index expressions between brackets, one at least. -/
structure Key where
  first : Expression
  more : List Expression

/-- An operand. -/
inductive Expression where
  | target (t : Target)
  | constant (c : Constant)
  | key (k : Key)
  | label (name : String)

end

instance : Inhabited Expression := ⟨.label ""⟩

namespace Target

/-- A target without key, flags or names. -/
def ofStorage (s : Storage) : Target := ⟨s, none, .empty, none, none⟩

def register (type : ValueType) (number : Nat) : Target := ofStorage (.register type number)

/-- A declared name, or a stand-in for one. -/
def ofSymbol (s : Symbol) : Target := ofStorage (.symbol s.name s.type s.register)

def type (t : Target) : ValueType := t.storage.type

/-- The name, if the target has one. -/
def name? (t : Target) : Option String := t.storage.name?

/-- The target with flags added. -/
def addFlags (t : Target) (flags : FlagSet TargetFlag) : Target :=
  { t with flags := t.flags.union flags }

end Target

namespace Key

/-- The expressions of a key. -/
def entries (k : Key) : List Expression := k.first :: k.more

/-- The key of some expressions, unless there are none. -/
def ofList? : List Expression → Option Key
  | [] => none
  | e :: rest => some ⟨e, rest⟩

end Key

mutual

def Target.render : Target → String
  | ⟨storage, none, _, _, _⟩ => storage.render
  | ⟨storage, some key, _, _, _⟩ => storage.render ++ key.render

/-- The key as written, with semicolons between its expressions. -/
def Key.render : Key → String
  | ⟨first, more⟩ => "[" ++ first.render ++ Key.renderMore more ++ "]"

/-- The expressions behind the first. -/
def Key.renderMore : List Expression → String
  | [] => ""
  | e :: rest => ";" ++ e.render ++ Key.renderMore rest

def Expression.render : Expression → String
  | .target t => t.render
  | .constant c => c.render
  | .key k => k.render
  | .label name => name

end

mutual

/-- Whether two targets mean the same storage under the same key. -/
def Target.same : Target → Target → Bool
  | ⟨s, none, _, _, _⟩, ⟨s', none, _, _, _⟩ => s.same s'
  | ⟨s, some k, _, _, _⟩, ⟨s', some k', _, _, _⟩ => s.same s' && k.same k'
  | _, _ => false

/-- Whether two keys have the same expressions. -/
def Key.same : Key → Key → Bool
  | ⟨first, more⟩, ⟨first', more'⟩ => first.same first' && Key.sameMore more more'

/-- Whether the expressions behind the first are the same. -/
def Key.sameMore : List Expression → List Expression → Bool
  | [], [] => true
  | e :: rest, e' :: rest' => e.same e' && Key.sameMore rest rest'
  | _, _ => false

/-- Whether two operands are the same. -/
def Expression.same : Expression → Expression → Bool
  | .target t, .target t' => t.same t'
  | .constant c, .constant c' => c.same c'
  | .key k, .key k' => k.same k'
  | .label n, .label n' => n == n'
  | _, _ => false

end

namespace Expression

/-- The target, if the operand is one. -/
def asTarget? : Expression → Option Target
  | target t => some t
  | _ => none

/-- The constant, if the operand is one. -/
def asConstant? : Expression → Option Constant
  | constant c => some c
  | _ => none

/-- The label, if the operand is one. -/
def asLabel? : Expression → Option String
  | label n => some n
  | _ => none

/-- An int as an operand. -/
def int (n : Int64) : Expression := constant (.ofValue (.int n))

/-- A num as an operand. -/
def num (x : Float) : Expression := constant (.ofValue (.num x))

/-- A string as an operand. -/
def string (s : String) : Expression := constant (.ofValue (.string s))

end Expression
end PirFrontend
