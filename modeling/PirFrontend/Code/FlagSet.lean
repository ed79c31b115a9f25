/-!
Sets of flags. Subroutines, targets and arguments each have their own flags; a set of them is a
word with one bit for each.
-/
namespace PirFrontend

/-- A kind of flag: its members, and the bit that stands for each. -/
class Flag (φ : Type) where
  all : List φ
  bit : φ → UInt16

/-- A set of flags of one kind. -/
structure FlagSet (φ : Type) where
  bits : UInt16
  deriving DecidableEq, Repr

namespace FlagSet

variable {φ : Type}

def empty : FlagSet φ := ⟨0⟩

def union (s t : FlagSet φ) : FlagSet φ := ⟨s.bits ||| t.bits⟩

def diff (s t : FlagSet φ) : FlagSet φ := ⟨s.bits &&& ~~~t.bits⟩

def includes (s t : FlagSet φ) : Bool := s.bits &&& t.bits == t.bits

def isEmpty (s : FlagSet φ) : Bool := s.bits == 0

variable [Flag φ]

def single (f : φ) : FlagSet φ := ⟨1 <<< Flag.bit f⟩

def insert (s : FlagSet φ) (f : φ) : FlagSet φ := s.union (single f)

/-- Whether a flag is in the set. -/
def contains (s : FlagSet φ) (f : φ) : Bool := s.includes (single f)

def ofList (fs : List φ) : FlagSet φ := fs.foldl insert empty

/-- The flags of the set, by rising bits. -/
def toList (s : FlagSet φ) : List φ := Flag.all.filter s.contains

end FlagSet

/-- What a subroutine is declared as. -/
inductive SubFlag where
  | anon | init | load | main | method | lex | multi | postcomp | immediate
  deriving DecidableEq, Repr

instance : Flag SubFlag where
  all := [.anon, .init, .load, .main, .method, .lex, .multi, .postcomp, .immediate]
  bit
    | .anon => 0
    | .init => 1
    | .load => 2
    | .main => 3
    | .method => 4
    | .lex => 5
    | .multi => 6
    | .postcomp => 7
    | .immediate => 8

/-- How a parameter or a result receives its value. -/
inductive TargetFlag where
  | optional | optFlag | slurpy | flat | named | uniqueReg | invocant
  deriving DecidableEq, Repr

instance : Flag TargetFlag where
  all := [.optional, .optFlag, .slurpy, .flat, .named, .uniqueReg, .invocant]
  bit
    | .optional => 0
    | .optFlag => 1
    | .slurpy => 2
    | .flat => 3
    | .named => 4
    | .uniqueReg => 5
    | .invocant => 6

/-- How an argument is passed. -/
inductive ArgFlag where
  | flat | named
  deriving DecidableEq, Repr

instance : Flag ArgFlag where
  all := [.flat, .named]
  bit
    | .flat => 0
    | .named => 1

end PirFrontend
