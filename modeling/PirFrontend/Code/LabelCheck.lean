import PirFrontend.Code.Subroutine

/-!
The check of labels. A branch names its label by a string; here we see whether the subroutine
defines it, and whether each defined label stands at a statement or behind the last one.
-/
namespace PirFrontend

/-- What is wrong with a label. -/
inductive LabelFault where
  /-- The instruction at this index names a label that the subroutine does not define. -/
  | undefined (subroutine label : String) (statement : Nat)
  /-- The label stands at an index beyond the end of `count` statements. -/
  | outOfRange (subroutine label : String) (index count : Nat)
  deriving DecidableEq, Repr

namespace LabelFault

def message : LabelFault → String
  | undefined sub label _ => s!"label '{label}' referenced in '{sub}' is not defined"
  | outOfRange sub label index count =>
    s!"label '{label}' in '{sub}' points at statement {index} of {count}"

end LabelFault

namespace Subroutine

/-- The labels that stand beyond the end. -/
def strayLabels (s : Subroutine) : List LabelFault :=
  s.labels.entries.filterMap fun (label, index) =>
    -- A label behind the last statement is in order.
    if s.statements.length < index then
      some (.outOfRange s.name label index s.statements.length)
    else none

/-- The labels that one statement names in vain. Invocations name none. -/
def unknownLabels (s : Subroutine) (index : Nat) : Statement → List LabelFault
  | .instruction i => (i.labels.filter (!s.labels.contains ·)).map (.undefined s.name · index)
  | .invocation _ => []

/-- Every fault of a subroutine: labels beyond the end first, then the statements in order. -/
def labelFaults (s : Subroutine) : List LabelFault :=
  s.strayLabels ++
    (s.statements.mapIdx fun index statement => s.unknownLabels index statement).flatten

end Subroutine

/-- Every fault of a unit, subroutine by subroutine. -/
def CompilationUnit.labelFaults (u : CompilationUnit) : List LabelFault :=
  u.subroutines.flatMap Subroutine.labelFaults

end PirFrontend
