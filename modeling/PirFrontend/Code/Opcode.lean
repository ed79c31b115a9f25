/-!
The opcodes of the Parrot virtual machine, by what they do, and tables of known opcodes.
-/
namespace PirFrontend
namespace Opcode

/-- Opcodes that move control. -/
def control : List String :=
  ["noop", "end", "branch", "jump", "bsr", "ret", "local_branch", "local_return", "if", "unless",
   "if_null", "unless_null", "eq", "ne", "lt", "le", "gt", "ge", "eq_str", "ne_str", "eq_num",
   "ne_num", "eq_addr", "ne_addr", "set_addr", "get_addr", "exit", "die", "throw", "rethrow",
   "push_eh", "pop_eh", "clear_eh", "count_eh", "returncc", "yield", "tailcall", "invoke",
   "invokecc", "callmethod", "callmethodcc", "tailcallmethod"]

/-- Opcodes that pass arguments and results. -/
def calling : List String :=
  ["set_args", "get_params", "set_returns", "get_results", "result_info"]

/-- Opcodes that move values. -/
def movement : List String :=
  ["set", "assign", "setref", "deref", "null", "clone", "copy", "exchange", "box", "unbox"]

/-- Opcodes that compute with numbers. -/
def arithmetic : List String :=
  ["add", "sub", "mul", "div", "fdiv", "mod", "cmod", "pow", "inc", "dec", "neg", "abs", "sqrt",
   "exp", "ln", "log2", "log10", "sin", "cos", "tan", "asin", "acos", "atan", "sinh", "cosh",
   "tanh", "floor", "ceil", "gcd", "lcm", "fact"]

/-- Opcodes on bits and truth values. -/
def logic : List String :=
  ["band", "bor", "bxor", "bnot", "shl", "shr", "lsr", "rot", "and", "or", "xor", "not"]

/-- Opcodes that compare and test. -/
def comparison : List String :=
  ["cmp", "cmp_str", "cmp_num", "cmp_pmc", "iseq", "isne", "islt", "isle", "isgt", "isge",
   "isnull", "issame", "isntsame", "istrue", "isfalse"]

/-- Opcodes on strings. -/
def text : List String :=
  ["concat", "repeat", "length", "bytelength", "substr", "replace", "index", "join", "split",
   "chr", "ord", "upcase", "downcase", "titlecase", "sprintf", "chopn", "trans_charset",
   "trans_encoding", "escape", "compose", "find_charset", "find_encoding", "charset",
   "charsetname", "encoding", "encodingname", "is_cclass", "find_cclass", "find_not_cclass",
   "stringinfo"]

/-- Opcodes on classes, objects and containers. -/
def objects : List String :=
  ["new", "newclass", "subclass", "get_class", "class", "typeof", "isa", "does", "can",
   "find_method", "addattribute", "getattribute", "setattribute", "removeattribute", "addparent",
   "removeparent", "addrole", "inspect", "defined", "exists", "delete", "elements", "push", "pop",
   "shift", "unshift", "splice", "iter", "morph", "get_repr", "newclosure", "get_id", "setprop",
   "getprop", "delprop", "prophash", "freeze", "thaw"]

/-- Opcodes on namespaces, globals and lexicals. -/
def namespaces : List String :=
  ["get_global", "set_global", "get_hll_global", "set_hll_global", "get_root_global",
   "set_root_global", "get_namespace", "get_hll_namespace", "get_root_namespace", "find_lex",
   "store_lex", "find_dynamic_lex", "find_caller_lex", "find_name", "find_sub_not_null"]

/-- Opcodes on files and sockets. -/
def streams : List String :=
  ["print", "say", "printerr", "open", "close", "read", "readline", "peek", "seek", "tell",
   "getstdin", "getstdout", "getstderr", "setstdout", "setstderr", "stat", "socket"]

/-- Opcodes that drive the virtual machine itself. -/
def interpreter : List String :=
  ["load_bytecode", "load_language", "loadlib", "dlfunc", "dlvar", "compreg", "interpinfo",
   "trace", "debug", "bounds", "profile", "sweep", "collect", "sweepoff", "sweepon", "collectoff",
   "collecton", "needs_destroy", "time", "sleep", "err", "errorsoff", "errorson", "annotations",
   "setfile", "setline", "getfile", "getline", "backtrace", "schedule", "addhandler", "finalize",
   "spawnw", "sysinfo", "gmtime", "localtime", "decodetime", "decodelocaltime"]

/-- Every opcode of the machine. -/
def machine : List String :=
  control ++ calling ++ movement ++ arithmetic ++ logic ++ comparison ++ text ++ objects ++
    namespaces ++ streams ++ interpreter

end Opcode

/-- A set of opcode names, without repetitions. -/
structure OpcodeTable where
  names : List String
  deriving DecidableEq, Repr

namespace OpcodeTable

def empty : OpcodeTable := ⟨[]⟩

/-- The table of the machine's own opcodes. -/
def parrot : OpcodeTable := ⟨Opcode.machine⟩

/-- Whether a name is an opcode. -/
def contains (t : OpcodeTable) (name : String) : Bool := t.names.contains name

/-- The table with a name added. -/
def add (t : OpcodeTable) (name : String) : OpcodeTable :=
  if t.contains name then t else ⟨t.names ++ [name]⟩

/-- The table with names added. -/
def extend (t : OpcodeTable) (names : List String) : OpcodeTable := names.foldl add t

/-- How many opcodes there are. -/
def size (t : OpcodeTable) : Nat := t.names.length

def isEmpty (t : OpcodeTable) : Bool := t.names.isEmpty

end OpcodeTable
end PirFrontend
