import PirFrontend.Value.Constant

/-!
The truth of a single constant, as tested by a condition.
-/
namespace PirFrontend

/-- Whether a string counts as true: all do but the empty one and four ways to write zero. -/
def stringTruth (s : String) : Bool :=
  !(s == "" || s == "0" || s == ".0" || s == "0." || s == "0.0")

/-- A constant that has no truth value, by its type. -/
structure TruthError where
  type : ValueType
  deriving DecidableEq, Repr

def TruthError.message (e : TruthError) : String :=
  s!"constant of type '{e.type.name}' has no truth value"

/-- The truth of a constant. Numbers are true unless zero; pmc constants are left to the running
program. -/
def Constant.truth (c : Constant) : Except TruthError Bool :=
  match c.value with
  | .int v => .ok (v != 0)
  | .num v => .ok (v != 0.0)
  | .string s => .ok (stringTruth s)
  | .pmc _ => .error ⟨.pmc⟩

end PirFrontend
