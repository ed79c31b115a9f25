import PirFrontend.Token.Word

/-!
The types of values. Every symbol, register and constant has one.
-/
namespace PirFrontend

/-- The type of a value. A name that was used without a declaration has the type `unknown`. -/
inductive ValueType where
  | int | num | string | pmc | unknown
  deriving DecidableEq, Repr

namespace ValueType

/-- The name of a type in declarations and messages. -/
def name : ValueType → String
  | int => "int"
  | num => "num"
  | string => "string"
  | pmc => "pmc"
  | unknown => "unknown"

/-- The type that a keyword declares. -/
def ofKeyword? : Keyword → Option ValueType
  | .int => some int
  | .num => some num
  | .string => some string
  | .pmc => some pmc
  | _ => none

/-- The type of the registers of a class. -/
def ofRegisterClass : RegisterClass → ValueType
  | .int => int
  | .num => num
  | .string => string
  | .pmc => pmc

/-- The letter of the registers of a type; there are none of type `unknown`. -/
def registerLetter? : ValueType → Option Char
  | int => some 'I'
  | num => some 'N'
  | string => some 'S'
  | pmc => some 'P'
  | unknown => none

end ValueType
end PirFrontend
