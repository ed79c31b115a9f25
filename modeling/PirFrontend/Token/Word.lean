/-!
The fixed words of PIR: directives with their dot, flags with their colon, keywords, and the
letters of the register classes. Each has one spelling and is found again by it.
-/
namespace PirFrontend

/-- A directive, written with a leading dot. -/
inductive Directive where
  | hll | hllMap | loadlib | sub | endSub | param | lex | localDecl | namespaceDecl | invocant
  | methCall | globalConst | const | returnValues | yieldValues | setReturn | setYield
  | beginReturn | endReturn | beginYield | endYield | beginCall | endCall | getResults | call
  | setArg | getResult | nciCall | tailcall
  deriving DecidableEq, Repr

namespace Directive

def spelling : Directive → String
  | hll => ".HLL"
  | hllMap => ".HLL_map"
  | loadlib => ".loadlib"
  | sub => ".sub"
  | endSub => ".end"
  | param => ".param"
  | lex => ".lex"
  | localDecl => ".local"
  | namespaceDecl => ".namespace"
  | invocant => ".invocant"
  | methCall => ".meth_call"
  | globalConst => ".globalconst"
  | const => ".const"
  | returnValues => ".return"
  | yieldValues => ".yield"
  | setReturn => ".set_return"
  | setYield => ".set_yield"
  | beginReturn => ".begin_return"
  | endReturn => ".end_return"
  | beginYield => ".begin_yield"
  | endYield => ".end_yield"
  | beginCall => ".begin_call"
  | endCall => ".end_call"
  | getResults => ".get_results"
  | call => ".call"
  | setArg => ".set_arg"
  | getResult => ".get_result"
  | nciCall => ".nci_call"
  | tailcall => ".tailcall"

def all : List Directive :=
  [hll, hllMap, loadlib, sub, endSub, param, lex, localDecl, namespaceDecl, invocant, methCall,
   globalConst, const, returnValues, yieldValues, setReturn, setYield, beginReturn, endReturn,
   beginYield, endYield, beginCall, endCall, getResults, call, setArg, getResult, nciCall,
   tailcall]

def ofSpelling? (text : String) : Option Directive := all.find? (·.spelling == text)

end Directive

/-- A flag, written with a leading colon. -/
inductive FlagWord where
  | init | load | main | anon | method | outer | vtable | lex | multi | postcomp | immediate
  | lexid | instanceof | uniqueReg | named | slurpy | flat | optional | optFlag | invocant
  deriving DecidableEq, Repr

namespace FlagWord

def spelling : FlagWord → String
  | init => ":init"
  | load => ":load"
  | main => ":main"
  | anon => ":anon"
  | method => ":method"
  | outer => ":outer"
  | vtable => ":vtable"
  | lex => ":lex"
  | multi => ":multi"
  | postcomp => ":postcomp"
  | immediate => ":immediate"
  | lexid => ":lexid"
  | instanceof => ":instanceof"
  | uniqueReg => ":unique_reg"
  | named => ":named"
  | slurpy => ":slurpy"
  | flat => ":flat"
  | optional => ":optional"
  | optFlag => ":opt_flag"
  | invocant => ":invocant"

def all : List FlagWord :=
  [init, load, main, anon, method, outer, vtable, lex, multi, postcomp, immediate, lexid,
   instanceof, uniqueReg, named, slurpy, flat, optional, optFlag, invocant]

def ofSpelling? (text : String) : Option FlagWord := all.find? (·.spelling == text)

end FlagWord

/-- A word with a meaning of its own. Where the grammar leaves room, a keyword still serves as a
name. -/
inductive Keyword where
  | ifWord | unlessWord | null | goto | int | num | pmc | string
  deriving DecidableEq, Repr

namespace Keyword

def spelling : Keyword → String
  | ifWord => "if"
  | unlessWord => "unless"
  | null => "null"
  | goto => "goto"
  | int => "int"
  | num => "num"
  | pmc => "pmc"
  | string => "string"

def all : List Keyword := [ifWord, unlessWord, null, goto, int, num, pmc, string]

def ofSpelling? (text : String) : Option Keyword := all.find? (·.spelling == text)

end Keyword

/-- The class of a register, given by the letter behind the dollar sign. -/
inductive RegisterClass where
  | pmc | num | string | int
  deriving DecidableEq, Repr

namespace RegisterClass

def letter : RegisterClass → Char
  | pmc => 'P'
  | num => 'N'
  | string => 'S'
  | int => 'I'

def all : List RegisterClass := [pmc, num, string, int]

def ofLetter? (c : Char) : Option RegisterClass := all.find? (·.letter == c)

end RegisterClass
end PirFrontend
