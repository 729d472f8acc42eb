/-!
# Members of known classes

`knownClasses` lists the classes of the language and its library by name, each with
the classes it inherits from besides `object`, in the order in which members are looked up, and
with its own members grouped by the class of the member.  A name with two underscores on each side
is listed with a dot in their place.
-/

namespace Readiness.Image

namespace KnownClass

/-- The class of some members, with their names. -/
abbrev Group := String × String

variable (names : String)

def wrappers : Group := ("wrapper_descriptor", names)

def methods : Group := ("method_descriptor", names)

def classMethods : Group := ("classmethod_descriptor", names)

def properties : Group := ("getset_descriptor", names)

def slots : Group := ("member_descriptor", names)

def functions : Group := ("function", names)

def maker : Group := ("builtin_function_or_method", ".new")

def making : Group := ("staticmethod", ".new")

def described : Group := ("str", ".doc")

def undescribed : Group := ("NoneType", ".doc")

def documented : Group := ("str", ".doc .module")

def unhashable : Group := ("NoneType", ".hash")

def generic : Group := classMethods ".class_getitem"

def extensible : Group := properties ".dict .weakref"

def slotted : Group := ("tuple", ".slots")

def abstractData : Group := ("_abc._abc_data", "_abc_impl")

def abstracts : Group := ("frozenset", ".abstractmethods")

def constructed : List Group := [maker, described, wrappers ".init"]

def initialised : List Group := [described, wrappers ".init"]

def shown : List Group := [described, wrappers ".init .str"]

def encoded : List Group :=
  maker :: slots "encoding end object reason start" :: shown

def abstract : List Group := [abstractData, abstracts, documented, slotted]

/-! Names that several classes give members to, each list ending in a blank. -/

def compared : String := ".eq .ge .getattribute .gt .le .lt .ne .repr "

def arithmetic : String :=
  ".abs .add .bool .mul .neg .pos .pow .radd .rmul .rpow .rsub .rtruediv .sub .truediv "

def division : String := ".divmod .floordiv .mod .rdivmod .rfloordiv .rmod "

def shifting : String := ".index .int .invert .lshift .rlshift .rrshift .rshift "

def bitwise : String := ".and .or .rand .ror .rxor .xor "

def sequential : String := ".add .contains .iter .len .mul .rmul "

def rounding : String := ".ceil .floor .round .trunc "

def ofText : String :=
  "capitalize center count endswith expandtabs find index isalnum isalpha isascii isdigit islower "
    ++ "isspace istitle isupper join ljust lower lstrip partition removeprefix removesuffix "
    ++ "replace rfind rindex rjust rpartition rsplit rstrip split splitlines startswith strip "
    ++ "swapcase title translate upper zfill "

def ofSets : String :=
  ".contains .reduce .sizeof copy difference intersection isdisjoint issubset issuperset "
    ++ "symmetric_difference union "

def iterating : String := ".getattribute .iter .next "

def calling : String := ".call .get .getattribute .repr "

def iterated : List Group := [maker, methods ".reduce", described, wrappers iterating]

def providing (shared own : String) : List Group :=
  [undescribed, abstractData, ("classmethod", shared), abstracts, functions own,
    ("str", ".module"), slotted]

def exception : String := "Exception BaseException"

def collection : String :=
  "collections.abc.Sized collections.abc.Iterable collections.abc.Container"

def alike (ancestors : String) (members : List Group) (names : List String) :
    List (String × String × List Group) :=
  names.map fun name => (name, ancestors, members)

def plainExceptions : List (String × String × List Group) :=
  [ alike exception constructed ["ArithmeticError", "AssertionError", "BufferError", "EOFError",
      "LookupError", "MemoryError", "ReferenceError", "RuntimeError", "StopAsyncIteration",
      "SystemError", "TypeError", "ValueError", "Warning"]
  , alike ("OSError " ++ exception) initialised ["BlockingIOError", "ChildProcessError",
      "ConnectionError", "FileExistsError", "FileNotFoundError", "InterruptedError",
      "IsADirectoryError", "NotADirectoryError", "PermissionError", "ProcessLookupError",
      "TimeoutError"]
  , alike ("ConnectionError OSError " ++ exception) initialised ["BrokenPipeError",
      "ConnectionAbortedError", "ConnectionRefusedError", "ConnectionResetError"]
  , alike ("Warning " ++ exception) constructed ["BytesWarning", "DeprecationWarning",
      "EncodingWarning", "FutureWarning", "ImportWarning", "PendingDeprecationWarning",
      "ResourceWarning", "RuntimeWarning", "SyntaxWarning", "UnicodeWarning", "UserWarning"]
  , alike "BaseException" constructed ["Exception", "GeneratorExit", "KeyboardInterrupt"]
  , alike ("ArithmeticError " ++ exception) constructed ["FloatingPointError", "OverflowError",
      "ZeroDivisionError"]
  , alike ("RuntimeError " ++ exception) constructed ["NotImplementedError", "RecursionError"]
  , alike ("UnicodeError ValueError " ++ exception) encoded ["UnicodeDecodeError",
      "UnicodeEncodeError", "UnicodeTranslateError"]
  , [("IndentationError", "SyntaxError " ++ exception, initialised),
      ("IndexError", "LookupError " ++ exception, constructed),
      ("ModuleNotFoundError", "ImportError " ++ exception, initialised),
      ("TabError", "IndentationError SyntaxError " ++ exception, initialised),
      ("UnboundLocalError", "NameError " ++ exception, initialised),
      ("UnicodeError", "ValueError " ++ exception, constructed)] ].flatten

end KnownClass

open KnownClass in
/-- The classes of the language that have a name there. -/
def namedClasses : List (String × String × List Group) :=
  [ ("object", "", [maker, classMethods ".init_subclass .subclasshook", properties ".class",
      methods ".dir .format .getstate .reduce .reduce_ex .sizeof", described,
      wrappers <| compared ++ ".delattr .hash .init .setattr .str"])
  , ("type", "", [maker, classMethods ".prepare",
      properties <| ".abstractmethods .annotations .bases .dict .doc .module .name .qualname "
        ++ ".text_signature",
      slots ".base .basicsize .dictoffset .flags .itemsize .mro .weakrefoffset",
      methods ".dir .instancecheck .sizeof .subclasscheck .subclasses mro",
      wrappers ".call .delattr .getattribute .init .or .repr .ror .setattr"])
  , ("int", "", [maker, classMethods "from_bytes", properties "denominator imag numerator real",
      methods <| rounding
        ++ ".format .getnewargs .sizeof as_integer_ratio bit_count bit_length conjugate to_bytes",
      described,
      wrappers <| compared ++ arithmetic ++ division ++ shifting ++ bitwise ++ ".float .hash"])
  , ("bool", "int", [maker, described, wrappers <| bitwise ++ ".repr"])
  , ("float", "", [maker, classMethods ".getformat fromhex", properties "imag real",
      methods <| rounding ++ ".format .getnewargs as_integer_ratio conjugate hex is_integer",
      described, wrappers <| compared ++ arithmetic ++ division ++ ".float .hash .int"])
  , ("complex", "", [maker, slots "imag real", methods ".complex .format .getnewargs conjugate",
      described, wrappers <| compared ++ arithmetic ++ ".hash"])
  , ("str", "", [maker,
      methods <| ofText
        ++ ".format .getnewargs .sizeof casefold encode format format_map isdecimal isidentifier "
        ++ "isnumeric isprintable", ("staticmethod", "maketrans"), described,
      wrappers <| compared ++ sequential ++ ".getitem .hash .mod .rmod .str"])
  , ("bytes", "", [maker, classMethods "fromhex",
      methods <| ofText ++ ".bytes .getnewargs decode hex", ("staticmethod", "maketrans"),
      described, wrappers <| compared ++ sequential ++ ".getitem .hash .mod .rmod .str"])
  , ("bytearray", "", [unhashable, maker, classMethods "fromhex",
      methods <| ofText
        ++ ".alloc .reduce .reduce_ex .sizeof append clear copy decode extend hex insert pop "
        ++ "remove reverse", ("staticmethod", "maketrans"), described,
      wrappers <| compared ++ sequential
        ++ ".delitem .getitem .iadd .imul .init .mod .rmod .setitem .str"])
  , ("list", "", [unhashable, maker, generic,
      methods <| ".getitem .reversed .sizeof append clear copy count extend index insert pop "
        ++ "remove reverse sort", described,
      wrappers <| compared ++ sequential ++ ".delitem .iadd .imul .init .setitem"])
  , ("tuple", "", [maker, generic, methods ".getnewargs count index", described,
      wrappers <| compared ++ sequential ++ ".getitem .hash"])
  , ("dict", "", [unhashable, maker, classMethods ".class_getitem fromkeys",
      methods <| ".contains .getitem .reversed .sizeof clear copy get items keys pop popitem "
        ++ "setdefault update values", described,
      wrappers <| compared ++ ".delitem .init .ior .iter .len .or .ror .setitem"])
  , ("set", "", [unhashable, maker, generic,
      methods <| ofSets
        ++ "add clear difference_update discard intersection_update pop remove "
        ++ "symmetric_difference_update update", described,
      wrappers <| compared ++ bitwise ++ ".iand .init .ior .isub .iter .ixor .len .rsub .sub"])
  , ("frozenset", "", [maker, generic, methods ofSets, described,
      wrappers <| compared ++ bitwise ++ ".hash .iter .len .rsub .sub"])
  , ("range", "", [maker, slots "start step stop", methods ".reduce .reversed count index",
      described, wrappers <| compared ++ ".bool .contains .getitem .hash .iter .len"])
  , ("slice", "", [unhashable, maker, slots "start step stop", methods ".reduce indices", described,
      wrappers compared])
  , ("memoryview", "", [maker,
      properties <| "c_contiguous contiguous f_contiguous format itemsize nbytes ndim obj readonly "
        ++ "shape strides suboffsets",
      methods ".enter .exit cast hex release tobytes tolist toreadonly", described,
      wrappers <| compared ++ ".delitem .getitem .hash .iter .len .setitem"])
  , ("enumerate", "", [maker, generic, methods ".reduce", described, wrappers iterating])
  , ("zip", "", [maker, methods ".reduce .setstate", described, wrappers iterating])
  , ("reversed", "", [maker, methods ".length_hint .reduce .setstate", described,
      wrappers iterating])
  , ("property", "", [maker, properties ".isabstractmethod", slots ".doc fdel fget fset",
      methods ".set_name deleter getter setter", wrappers ".delete .get .getattribute .init .set"])
  , ("staticmethod", "", [maker, properties ".dict .isabstractmethod", slots ".func .wrapped",
      described, wrappers ".call .get .init .repr"])
  , ("classmethod", "", [maker, properties ".dict .isabstractmethod", slots ".func .wrapped",
      described, wrappers ".get .init .repr"])
  , ("super", "", [maker, slots ".self .self_class .thisclass", described,
      wrappers ".get .getattribute .init .repr"])
  , ("AttributeError", exception, slots "name obj" :: shown)
  , ("BaseException", "", [maker, properties ".cause .context .dict .traceback args",
      slots ".suppress_context", methods ".reduce .setstate add_note with_traceback", described,
      wrappers ".delattr .getattribute .init .repr .setattr .str"])
  , ("BaseExceptionGroup", "BaseException", [maker, generic, slots "exceptions message",
      methods "derive split subgroup"] ++ shown)
  , ("OSError", exception, [maker, properties "characters_written",
      slots "errno filename filename2 strerror", methods ".reduce"] ++ shown)
  , ("ExceptionGroup", "BaseExceptionGroup " ++ exception, [undescribed, properties ".weakref",
      ("str", ".module")])
  , ("ImportError", exception, slots "msg name path" :: methods ".reduce" :: shown)
  , ("KeyError", "LookupError " ++ exception, shown)
  , ("NameError", exception, slots "name" :: shown)
  , ("StopIteration", exception, slots "value" :: initialised)
  , ("SyntaxError", exception,
      slots "end_lineno end_offset filename lineno msg offset print_file_and_line text" :: shown)
  , ("SystemExit", "BaseException", slots "code" :: initialised) ]
  ++ alike "" iterated ["map", "filter"] ++ plainExceptions

open KnownClass in
def knownClasses : List (String × String × List Group) :=
  namedClasses ++
  [ ("NoneType", "", [undescribed, maker, wrappers ".bool .repr"])
  , ("function", "", [maker,
      properties ".annotations .code .defaults .dict .kwdefaults .name .qualname",
      slots ".builtins .closure .doc .globals .module", wrappers ".call .get .repr"])
  , ("method", "", [maker, properties ".doc", slots ".func .self", methods ".reduce",
      wrappers <| compared ++ ".call .delattr .hash .setattr"])
  , ("generator", "", [undescribed,
      properties ".name .qualname gi_frame gi_running gi_suspended gi_yieldfrom", slots "gi_code",
      methods ".sizeof close send throw", wrappers <| iterating ++ ".del .repr"])
  , ("module", "", [maker, properties ".annotations", slots ".dict", methods ".dir", described,
      wrappers ".delattr .getattribute .init .repr .setattr"])
  , ("dict_keys", "", [("NoneType", ".doc .hash"), properties "mapping",
      methods ".reversed isdisjoint",
      wrappers <| compared ++ bitwise ++ ".contains .iter .len .rsub .sub"])
  , ("dict_values", "", [undescribed, properties "mapping", methods ".reversed",
      wrappers ".getattribute .iter .len .repr"])
  , ("dict_items", "", [("NoneType", ".doc .hash"), properties "mapping",
      methods ".reversed isdisjoint",
      wrappers <| compared ++ bitwise ++ ".contains .iter .len .rsub .sub"])
  , ("list_iterator", "", [undescribed, methods ".length_hint .reduce .setstate",
      wrappers iterating])
  , ("ellipsis", "", [undescribed, maker, methods ".reduce", wrappers ".getattribute .repr"])
  , ("NotImplementedType", "", [undescribed, maker, methods ".reduce", wrappers ".bool .repr"])
  , ("builtin_function_or_method", "", [properties ".doc .name .qualname .self .text_signature",
      slots ".module", methods ".reduce", wrappers <| compared ++ ".call .hash"])
  , ("method-wrapper", "", [properties ".doc .name .objclass .qualname .text_signature",
      slots ".self", methods ".reduce", wrappers <| compared ++ ".call .hash"])
  , ("wrapper_descriptor", "", [properties ".doc .qualname .text_signature",
      slots ".name .objclass", methods ".reduce", wrappers calling])
  , ("method_descriptor", "", [properties ".doc .qualname .text_signature", slots ".name .objclass",
      methods ".reduce", wrappers calling])
  , ("classmethod_descriptor", "", [properties ".doc .qualname .text_signature",
      slots ".name .objclass", wrappers calling])
  , ("getset_descriptor", "", [properties ".doc .qualname", slots ".name .objclass",
      wrappers ".delete .get .getattribute .repr .set"])
  , ("member_descriptor", "", [properties ".doc .qualname", slots ".name .objclass",
      methods ".reduce", wrappers ".delete .get .getattribute .repr .set"])
  , ("mappingproxy", "", [("NoneType", ".doc .hash"), maker, generic,
      methods ".reversed copy get items keys values",
      wrappers <| compared ++ ".contains .getitem .ior .iter .len .or .ror .str"])
  , ("collections.deque", "", [unhashable, maker, generic, properties "maxlen",
      methods <| ".copy .reduce .reversed .sizeof append appendleft clear copy count extend "
        ++ "extendleft index insert pop popleft remove reverse rotate", described,
      wrappers <| compared ++ sequential ++ ".delitem .getitem .iadd .imul .init .setitem"])
  , ("collections.OrderedDict", "dict", [unhashable, classMethods "fromkeys", properties ".dict",
      methods <| ".reduce .reversed .sizeof clear copy items keys move_to_end pop popitem "
        ++ "setdefault update values", described,
      wrappers ".delitem .eq .ge .gt .init .ior .iter .le .lt .ne .or .repr .ror .setitem"])
  , ("collections.Counter", "dict", [unhashable, ("classmethod", "fromkeys"),
      functions <| ".add .and .delitem .eq .ge .gt .iadd .iand .init .ior .isub .le .lt .missing "
        ++ ".ne .neg .or .pos .reduce .repr .sub _keep_positive copy elements most_common subtract "
        ++ "total update", extensible, documented])
  , ("collections.defaultdict", "dict", [generic, slots "default_factory",
      methods ".copy .missing .reduce copy", described,
      wrappers ".getattribute .init .or .repr .ror"])
  , ("types.SimpleNamespace", "", [unhashable, maker, slots ".dict", methods ".reduce", described,
      wrappers <| compared ++ ".delattr .init .setattr"])
  , ("_io.StringIO", "_io._TextIOBase _io._IOBase", [maker,
      properties "closed line_buffering newlines",
      methods <| ".getstate .setstate close getvalue read readable readline seek seekable tell "
        ++ "truncate writable write", described, wrappers ".init .next"])
  , ("io.IOBase", "_io._IOBase", [abstractData, abstracts, documented])
  , ("abc.ABC", "", abstract)
  , ("enum.Enum", "", [("NoneType", "_value_repr_"), ("bool", "_use_args_"),
      ("classmethod", "_missing_"), ("dict", "_member_map_ _value2member_map_"),
      ("enum.property", "name value"),
      functions <| ".copy .deepcopy .dir .format .hash .init .reduce_ex .repr .str "
        ++ "_generate_next_value_ _new_member_", extensible,
      ("list", "_member_names_ _unhashable_values_"), making, documented,
      ("type", "_member_type_")])
  , ("numbers.Number", "", unhashable :: abstract)
  , ("numbers.Integral", "numbers.Rational numbers.Real numbers.Complex numbers.Number",
      [functions <| shifting ++ bitwise ++ ".float .pow",
      ("property", "denominator numerator")] ++ abstract)
  , ("os.PathLike", "abc.ABC", [abstractData, ("classmethod", ".class_getitem .subclasshook"),
      abstracts, functions ".fspath", extensible, documented])
  , ("typing.Protocol", "typing.Generic", [abstractData,
      ("bool", "_is_protocol _is_runtime_protocol"), ("classmethod", ".init_subclass"), abstracts,
      documented, ("tuple", ".parameters .slots")])
  , ("typing.Generic", "", [("bool", "_is_protocol"),
      ("classmethod", ".class_getitem .init_subclass"), documented, slotted])
  , ("typing.Any", "", [extensible, making, documented])
  , ("typing.TypeVar",
      "typing._Final typing._Immutable typing._BoundVarianceMixin typing._PickleUsingNameMixin",
      [functions ".init .typing_subst", properties ".dict", documented])
  , ("typing.Annotated", "", [("classmethod", ".class_getitem .init_subclass"),
      functions "_class_getitem_inner", making, documented, slotted])
  , ("abc.ABCMeta", "type",
      [functions <| ".instancecheck .subclasscheck _abc_caches_clear _abc_registry_clear "
        ++ "_dump_registry register", making, documented])
  , ("enum.EnumType", "type",
      [("classmethod", ".prepare _check_for_existing_members_ _find_data_repr_ _find_data_type_ "
        ++ "_find_new_ _get_mixins_"),
      functions <| ".bool .call .contains .delattr .dir .getattr .getitem .iter .len .repr "
        ++ ".reversed .setattr _convert_ _create_", ("property", ".members"), making, documented])
  , ("typing._ProtocolMeta", "abc.ABCMeta type", [undescribed, functions ".instancecheck",
      ("str", ".module")])
  , ("typing._AnyMeta", "type", [undescribed, functions ".instancecheck .repr", ("str", ".module")])
  , ("functools._lru_cache_wrapper", "", [maker, properties ".dict",
      methods ".copy .deepcopy .reduce cache_clear cache_info", documented, wrappers ".call .get"])
  , ("types.GenericAlias", "", [maker, properties ".parameters .typing_unpacked_tuple_args",
      slots ".args .origin .unpacked",
      methods ".dir .instancecheck .mro_entries .reduce .subclasscheck", described,
      wrappers <| compared ++ ".call .getitem .hash .iter .or .ror"])
  , ("types.UnionType", "", [properties ".parameters", slots ".args", described,
      wrappers <| compared ++ ".getitem .hash .or .ror"])
  , ("collections.abc.Mapping", "collections.abc.Collection " ++ collection,
      [("NoneType", ".hash .reversed"),
        functions ".contains .eq .getitem get items keys values"] ++ abstract)
  , ("collections.abc.Sequence",
      "collections.abc.Reversible collections.abc.Collection " ++ collection,
      functions ".contains .getitem .iter .reversed count index" :: abstract)
  , ("_io._TextIOBase", "_io._IOBase", [properties "encoding errors newlines",
      methods "detach read readline write", described])
  , ("_io._IOBase", "", [maker, properties ".dict closed",
      methods <| ".enter .exit _checkClosed _checkReadable _checkSeekable _checkWritable close "
        ++ "fileno flush isatty readable readline readlines seek seekable tell truncate writable "
        ++ "writelines", described, wrappers ".del .iter .next"])
  , ("numbers.Rational", "numbers.Real numbers.Complex numbers.Number",
      functions ".float" :: ("property", "denominator numerator") :: abstract)
  , ("numbers.Real", "numbers.Complex numbers.Number",
      [functions <| division ++ rounding ++ ".complex .float .le .lt conjugate",
      ("property", "imag real")] ++ abstract)
  , ("numbers.Complex", "numbers.Number", [unhashable,
      functions <| arithmetic ++ ".complex .eq conjugate", ("property", "imag real")] ++ abstract)
  , ("typing._Final", "", [("classmethod", ".init_subclass"), properties ".weakref", documented,
      slotted])
  , ("typing._Immutable", "", [functions ".copy .deepcopy", documented, slotted])
  , ("typing._BoundVarianceMixin", "", [functions ".init .or .repr .ror", extensible, documented])
  , ("typing._PickleUsingNameMixin", "", [functions ".reduce", extensible, documented])
  , ("collections.abc.Callable", "", providing ".class_getitem .subclasshook" ".call")
  , ("collections.abc.Iterable", "", providing ".class_getitem .subclasshook" ".iter")
  , ("collections.abc.Collection", collection, providing ".subclasshook" "")
  , ("collections.abc.Sized", "", providing ".subclasshook" ".len")
  , ("collections.abc.Container", "", providing ".class_getitem .subclasshook" ".contains")
  , ("collections.abc.Reversible", "collections.abc.Iterable",
      providing ".subclasshook" ".reversed") ]

end Readiness.Image
