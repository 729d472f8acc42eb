import Readiness.Image.KnownClasses
import Readiness.Image.Program

/-!
# Names of the library

`libraryEntity?` gives the entity of a dotted library name, `builtinEntity?` that of a
name of the language itself, and `compiledParams?` the parameters of functions that are not
part of the program.
-/

namespace Readiness.Image

def modules : List String :=
  ["abc", "builtins", "collections", "collections.abc", "dataclasses", "enum", "functools", "io",
    "math", "numbers", "os", "os.path", "types", "typing"]

def typingClass? : String → Option ClassRef
  | "List" => some .list
  | "Dict" => some .dict
  | "Set" => some .set
  | "FrozenSet" => some .frozenset
  | "Tuple" => some .tuple
  | "Type" => some .type
  | "DefaultDict" => some (.library "collections" "defaultdict")
  | "Iterable" => some (.library "collections.abc" "Iterable")
  | "Sequence" => some (.library "collections.abc" "Sequence")
  | "Mapping" => some (.library "collections.abc" "Mapping")
  | "Callable" => some (.library "collections.abc" "Callable")
  | _ => none

variable (name : String)

def typingEntity? : Option Entity :=
  match typingClass? name with
  | some c => some (.type (.bare name c))
  | none =>
    if ["ClassVar", "Final", "Literal", "NoReturn", "Optional", "Union"].contains name then
      some (.type (.form name))
    else if ["Annotated", "Any", "Protocol", "TypeVar"].contains name then
      some (.cls (.library "typing" name))
    else none

def mathUnary : List String :=
  ["acos", "acosh", "asin", "asinh", "atan", "atanh", "cbrt", "ceil", "cos", "cosh", "degrees",
    "erf", "erfc", "exp", "exp2", "expm1", "fabs", "floor", "frexp", "gamma", "isfinite", "isinf",
    "isnan", "lgamma", "log10", "log1p", "log2", "modf", "radians", "sin", "sinh", "sqrt", "tan",
    "tanh", "trunc", "ulp"]

/-- The functions of the mathematics module with two real arguments. -/
def mathBinary : List String := ["copysign", "fmod", "nextafter", "pow", "remainder"]

def mathOther : List String :=
  ["atan2", "comb", "dist", "factorial", "fsum", "gcd", "hypot", "isclose", "isqrt", "lcm",
    "ldexp", "log", "perm", "prod"]

def mathEntity? : Option Entity :=
  match name with
  | "pi" => some (.const (.float 3.141592653589793))
  | "e" => some (.const (.float 2.718281828459045))
  | "tau" => some (.const (.float 6.283185307179586))
  | "inf" => some (.const (.float Decimal.infinity))
  | "nan" => some (.const (.indefinite (.float Decimal.notANumber) .library))
  | name =>
    if (mathUnary ++ mathBinary ++ mathOther).contains name then
      some (.builtin ("math." ++ name))
    else none

/-- The classes that modules hold, by their names. -/
def moduleClasses : List (String × List String) :=
  [("abc", ["ABC"]), ("collections", ["Counter", "OrderedDict", "deque"]),
    ("collections.abc", ["Callable", "Iterable", "Mapping", "Sequence"]), ("enum", ["Enum"]),
    ("io", ["IOBase"]), ("numbers", ["Integral", "Number"]), ("os", ["PathLike"]),
    ("types", ["SimpleNamespace"])]

def moduleFunctions : List (String × List String) :=
  [("abc", ["abstractmethod"]), ("dataclasses", ["dataclass"]),
    ("functools", ["lru_cache", "wraps"]), ("os.path", ["join"])]

def moduleMember? (module name : String) : Option Entity :=
  let isListed (table : List (String × List String)) : Bool :=
    ((table.lookup module).getD []).contains name
  match module, name with
  | "math", _ => mathEntity? name
  | "typing", _ => typingEntity? name
  | "builtins", "range" => some (.cls .range)
  | "collections", "abc" => some (.module "collections.abc")
  | "io", "StringIO" => some (.cls (.library "_io" "StringIO"))
  | "os", "getcwd" => some (.builtin "os.getcwd")
  | "os", "path" => some (.module "os.path")
  | "types", "FunctionType" => some (.cls .function)
  | _, _ =>
    if isListed moduleClasses then some (.cls (.library module name))
    else if isListed moduleFunctions then some (.library (module ++ "." ++ name))
    else none

def module? : Option Entity :=
  if modules.contains name then some (.module name) else none

def builtinFunctions : List String :=
  ["__build_class__", "__import__", "abs", "aiter", "all", "anext", "any", "ascii", "bin",
    "breakpoint", "callable", "chr", "compile", "delattr", "dir", "divmod", "eval", "exec",
    "format", "getattr", "globals", "hasattr", "hash", "hex", "id", "input", "isinstance",
    "issubclass", "iter", "len", "locals", "max", "min", "next", "oct", "open", "ord", "pow",
    "print", "repr", "round", "setattr", "sorted", "sum", "vars"]

def builtinClasses : List String := namedClasses.map Prod.fst

def quitter : Entity :=
  .other (.library "_sitebuiltins" "Quitter") ("Use " ++ name ++ "() or Ctrl-D (i.e. EOF) to exit")

def builtinEntity? : Option Entity :=
  if builtinClasses.contains name then some (.cls (.builtin name))
  else if builtinFunctions.contains name then some (.builtin name)
  else
    match name with
    | "None" => some (.const .none)
    | "True" => some (.const (.bool true))
    | "False" => some (.const (.bool false))
    | "__debug__" => some (.const (.bool true))
    | "Ellipsis" => some (.const .ellipsis)
    | "NotImplemented" => some (.other (.builtin "NotImplementedType") "NotImplemented")
    | "EnvironmentError" | "IOError" => some (.cls (.builtin "OSError"))
    | "__name__" => some (.const (.str "builtins"))
    | "__package__" => some (.const (.str ""))
    | "__doc__" => some (.other .str "")
    | "__spec__" => some (.other (.library "_frozen_importlib" "ModuleSpec") "")
    | "__loader__" => some (.cls (.library "_frozen_importlib" "BuiltinImporter"))
    | "exit" => some (quitter "exit")
    | "quit" => some (quitter "quit")
    | "help" =>
      some (.other (.library "_sitebuiltins" "_Helper")
        "Type help() for interactive help, or help(object) for help about object.")
    | "copyright" | "credits" | "license" => some (.other (.library "_sitebuiltins" "_Printer") "")
    | _ => none

/-! Parameters of functions that are not part of the program: those that are needed, by position
only or not, and those with a default. -/

def given (names : List String) : List Parameter :=
  names.map fun n => ⟨n, .positionalOnly, none, none⟩

def needed (names : List String) : List Parameter :=
  names.map fun n => ⟨n, .positional, none, none⟩

def withDefault (kind : ParamKind) (default : Const) (names : List String) : List Parameter :=
  names.map fun n => ⟨n, kind, some (.const default), none⟩

def optional : Const → List String → List Parameter := withDefault .positional

def leading : Const → List String → List Parameter := withDefault .positionalOnly

def keyword : Const → List String → List Parameter := withDefault .keywordOnly

def variadic : List Parameter := [⟨name, .variadic, none, none⟩]

def keywordVariadic : List Parameter := [⟨name, .keywordVariadic, none, none⟩]

/-- The functions all of whose parameters are given by position. -/
def plainParams : List (String × List String) :=
  [("abs", ["x"]), ("aiter", ["async_iterable"]), ("all", ["iterable"]), ("any", ["iterable"]),
    ("ascii", ["obj"]), ("bin", ["number"]), ("callable", ["obj"]), ("chr", ["i"]),
    ("delattr", ["obj", "name"]), ("divmod", ["x", "y"]), ("globals", []),
    ("hasattr", ["obj", "name"]), ("hash", ["obj"]), ("hex", ["number"]), ("id", ["obj"]),
    ("isinstance", ["obj", "class_or_tuple"]), ("issubclass", ["cls", "class_or_tuple"]),
    ("len", ["obj"]), ("locals", []), ("oct", ["number"]), ("ord", ["c"]), ("repr", ["obj"]),
    ("setattr", ["obj", "name", "value"]), ("os.getcwd", []), ("math.atan2", ["y", "x"]),
    ("math.comb", ["n", "k"]), ("math.dist", ["p", "q"]), ("math.factorial", ["n"]),
    ("math.fsum", ["seq"]), ("math.isqrt", ["n"]), ("math.ldexp", ["x", "i"])]

def compiledParams? : Option (List Parameter) :=
  if (mathUnary.map ("math." ++ ·)).contains name then some (given ["x"])
  else if (mathBinary.map ("math." ++ ·)).contains name then some (given ["x", "y"])
  else if let some params := plainParams.lookup name then some (given params)
  else match name with
  | "math.gcd" | "math.lcm" => some (variadic "integers")
  | "math.isclose" =>
    some (needed ["a", "b"] ++ keyword (.float 1e-09) ["rel_tol"]
      ++ keyword (.float 0.0) ["abs_tol"])
  | "math.perm" => some (given ["n"] ++ leading .none ["k"])
  | "math.prod" => some (given ["iterable"] ++ keyword (.int 1) ["start"])
  | "__import__" =>
    some (needed ["name"] ++ optional .none ["globals", "locals"]
      ++ optional (.tuple []) ["fromlist"] ++ optional (.int 0) ["level"])
  | "compile" =>
    some (needed ["source", "filename", "mode"] ++ optional (.int 0) ["flags"]
      ++ optional (.bool false) ["dont_inherit"] ++ optional (.int (-1)) ["optimize"]
      ++ keyword (.int (-1)) ["_feature_version"])
  | "eval" => some (given ["source"] ++ leading .none ["globals", "locals"])
  | "exec" =>
    some (given ["source"] ++ leading .none ["globals", "locals"] ++ keyword .none ["closure"])
  | "format" => some (given ["value"] ++ leading (.str "") ["format_spec"])
  | "input" => some (leading (.str "") ["prompt"])
  | "open" =>
    some (needed ["file"] ++ optional (.str "r") ["mode"] ++ optional (.int (-1)) ["buffering"]
      ++ optional .none ["encoding", "errors", "newline"] ++ optional (.bool true) ["closefd"]
      ++ optional .none ["opener"])
  | "pow" => some (needed ["base", "exp"] ++ optional .none ["mod"])
  | "print" =>
    some (variadic "args" ++ keyword (.str " ") ["sep"] ++ keyword (.str "\n") ["end"]
      ++ keyword .none ["file"] ++ keyword (.bool false) ["flush"])
  | "round" => some (needed ["number"] ++ optional .none ["ndigits"])
  | "sorted" =>
    some (given ["iterable"] ++ keyword .none ["key"] ++ keyword (.bool false) ["reverse"])
  | "sum" => some (given ["iterable"] ++ optional (.int 0) ["start"])
  | "os.path.join" => some (needed ["a"] ++ variadic "p")
  | "abc.abstractmethod" => some (needed ["funcobj"])
  | "dataclasses.dataclass" =>
    some (leading .none ["cls"] ++ keyword (.bool true) ["init", "repr", "eq"]
      ++ keyword (.bool false) ["order", "unsafe_hash", "frozen"]
      ++ keyword (.bool true) ["match_args"]
      ++ keyword (.bool false) ["kw_only", "slots", "weakref_slot"])
  | "functools.lru_cache" =>
    some (optional (.int 128) ["maxsize"] ++ optional (.bool false) ["typed"])
  | "functools.wraps" =>
    some (needed ["wrapped"]
      ++ optional (.tuple [.str "__module__", .str "__name__", .str "__qualname__", .str "__doc__",
        .str "__annotations__"]) ["assigned"]
      ++ optional (.tuple [.str "__dict__"]) ["updated"])
  | _ => none

def builtinClassParams? : Option (List Parameter) :=
  match name with
  | "object" => some []
  | "float" => some (leading (.int 0) ["x"])
  | "list" | "tuple" => some (leading (.tuple []) ["iterable"])
  | "enumerate" => some (needed ["iterable"] ++ optional (.int 0) ["start"])
  | "complex" => some (optional (.int 0) ["real", "imag"])
  | "property" => some (optional .none ["fget", "fset", "fdel", "doc"])
  | "memoryview" => some (needed ["object"])
  | "reversed" => some (given ["sequence"])
  | "function" =>
    some (needed ["code", "globals"] ++ optional .none ["name", "argdefs", "closure"])
  | _ => none

def isUndescribed (c : ClassRef) : Bool :=
  [ClassRef.library "collections" "deque", .library "types" "SimpleNamespace",
    .library "io" "IOBase"].contains c

def libraryClassParams? (c : ClassRef) : Option (List Parameter) :=
  match c with
  | .library "_io" "StringIO" =>
    some (optional (.str "") ["initial_value"] ++ optional (.str "\n") ["newline"])
  | .library "collections" "Counter" =>
    some (leading .none ["iterable"] ++ keywordVariadic "kwds")
  | .library "typing" "TypeVar" =>
    some (needed ["name"] ++ variadic "constraints" ++ keyword .none ["bound"]
      ++ keyword (.bool false) ["covariant", "contravariant"])
  | .library "typing" "Any" | .library "typing" "Annotated" =>
    some (variadic "args" ++ keywordVariadic "kwargs")
  | _ => none

end Readiness.Image
