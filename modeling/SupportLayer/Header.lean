/-
# The header of generated code

Generated code is compiled against a header that declares the numeric aliases, the string
handle, the status codes and the C entry points. Both dialects get the same names and the
same prototypes; only the spelling differs. The C++ header adds a deferring statement and a
typed printing front end, both templates and so outside its block of C linkage; the C header
redefines `int`, last, so that the prototypes above keep their meaning.

Key definitions: `Header.aliases`, `Header.stringHandle`, `Header.cppDefer`,
`Header.cppPrintln`, `Header.text`.
-/
import SupportLayer.Fault
import SupportLayer.Numeric
import SupportLayer.Settings.Basic

namespace SupportLayer.Header

/-- The macro that keeps the header from being read twice. -/
def guardName : String := "BIGGIE_RUNTIME_H"

/-- The C entry points, in terms of the short aliases. -/
def prototypes : List String := [
  "BiggieArray* biggie_array_new(size_t capacity);",
  "BiggieArray* biggie_array_from(const i64* values, size_t len);",
  "BiggieArray* biggie_array_copy(const BiggieArray* src);",
  "BiggieArray* biggie_array_transfer(BiggieArray* src);",
  "void biggie_array_free(BiggieArray* arr);",
  "size_t biggie_array_len(const BiggieArray* arr);",
  "i64 biggie_array_get(const BiggieArray* arr, size_t index);",
  "i32 biggie_array_try_get(const BiggieArray* arr, size_t index, i64* out);",
  "size_t biggie_array_push(BiggieArray* arr, i64 value);",
  "i64 biggie_array_pop(BiggieArray* arr);",
  "i32 biggie_array_try_pop(BiggieArray* arr, i64* out);",
  "i64* biggie_array_data(BiggieArray* arr);",
  "i32 biggie_array_print(const BiggieArray* arr);",
  "size_t biggie_scope_enter(void);",
  "void biggie_defer(void (*action)(void*), void* context);",
  "void biggie_scope_exit(void);",
  "size_t biggie_scope_depth(void);",
  "i32 biggie_println(string format, const void* const* args, size_t count);"]

/-- The names under which the header defines the status codes. -/
def statusNames : List (String × Status) := [
  ("BIGGIE_OK", .ok),
  ("BIGGIE_ERR_OUT_OF_RANGE", .outOfRange),
  ("BIGGIE_ERR_EMPTY_CONTAINER", .emptyContainer),
  ("BIGGIE_ERR_WRITE_FAILURE", .writeFailure),
  ("BIGGIE_ERR_CONFIG", .config)]

/-- The declaration of one name for one type. -/
def aliasLine (dialect : Dialect) (name target : String) : String :=
  match dialect with
  | .c => "typedef " ++ target ++ " " ++ name ++ ";\n"
  | .cpp => "using " ++ name ++ " = " ++ target ++ ";\n"

/-- The numeric aliases, the long names if they are wanted, and `uint`. -/
def aliases (s : Settings) : String :=
  let short := Numeric.aliases.map fun a => aliasLine s.dialect a.name a.cType
  let long := Numeric.aliases.map fun a => aliasLine s.dialect a.legacyName a.name
  let uint := (Numeric.ofWidth? .unsigned s.intWidth.bits).map fun a =>
    aliasLine s.dialect "uint" a.name
  String.join (short ++ (if s.legacyAliases then long else []) ++ uint.toList)

/-- The string handle, its alias, and the macro that makes one of a literal. -/
def stringHandle (dialect : Dialect) : String :=
  let fields := "  const char* data;\n  ptrdiff_t length;\n"
  let named := aliasLine dialect Numeric.stringAlias "String"
  match dialect with
  | .c =>
    "typedef struct String \x7b\n" ++ fields ++ "\x7d String;\n" ++ named ++
      "#define STR(str) ((String)\x7bstr, sizeof(str) - 1\x7d)\n"
  | .cpp =>
    "struct String \x7b\n" ++ fields ++ "\x7d;\n" ++ named ++
      "#define STR(str) (String\x7bstr, sizeof(str) - 1\x7d)\n"

/-- The deferring statement of C++: a guard that runs a block once when the enclosing scope
ends and that cannot be copied. -/
def cppDefer : String := String.join [
  "#define BIGGIE_CONCAT_(a, b) a##b\n",
  "#define CONCAT(a, b) BIGGIE_CONCAT_(a, b)\n\n",
  "template <typename F>\n",
  "struct BiggieDeferGuard \x7b\n",
  "  F func;\n",
  "  explicit BiggieDeferGuard(F func) : func(func) \x7b\x7d\n",
  "  ~BiggieDeferGuard() \x7b func(); \x7d\n",
  "  BiggieDeferGuard(const BiggieDeferGuard&) = delete;\n",
  "  BiggieDeferGuard& operator=(const BiggieDeferGuard&) = delete;\n",
  "\x7d;\n\n",
  "struct BiggieDeferCapture \x7b\n",
  "  template <typename F>\n",
  "  BiggieDeferGuard<F> operator+(F func) \x7b return BiggieDeferGuard<F>(func); \x7d\n",
  "\x7d;\n\n",
  "#define defer const auto& CONCAT(__defer_, __LINE__) = BiggieDeferCapture() + [&]()\n"]

/-- The printing front end of C++, which takes strings and 32-bit integers only. -/
def cppPrintln : String := String.join [
  "template <typename... Args>\n",
  "inline i32 println(string format, const Args&... args) \x7b\n",
  "  static_assert(((std::is_same<Args, String>::value || std::is_same<Args, i32>::value) && ...),\n",
  "                \"println arguments must be string or i32\");\n",
  "  const void* argv[sizeof...(Args) + 1] = \x7bstatic_cast<const void*>(&args)..., nullptr\x7d;\n",
  "  return biggie_println(format, argv, sizeof...(Args));\n",
  "\x7d\n"]

/-- The headers that the header itself includes. -/
def includes : Dialect → String
  | .c => "#include <stddef.h>\n#include <stdint.h>\n\n"
  | .cpp => "#include <cstddef>\n#include <cstdint>\n#include <type_traits>\n\n"

/-- The status codes. -/
def statusCodes : String :=
  String.join (statusNames.map fun entry =>
    "#define " ++ entry.1 ++ " " ++ Decimal.text entry.2.code ++ "\n")

/-- The entry points, with the opaque type of sequence handles. -/
def entryPoints : String :=
  "typedef struct BiggieArray BiggieArray;\n" ++ String.join (prototypes.map (· ++ "\n"))

/-- What the C header says of `int`. C++ keeps its own. -/
def intMacro (s : Settings) : String :=
  match Numeric.ofWidth? .signed s.intWidth.bits with
  | some a => "\n#define int " ++ a.name ++ "\n"
  | none => ""

/-- The part between the status codes and the end of the header. -/
def linkage (s : Settings) : String :=
  match s.dialect with
  | .c => entryPoints ++ intMacro s
  | .cpp => "extern \"C\" \x7b\n" ++ entryPoints ++ "\x7d\n\n" ++ cppDefer ++ "\n" ++ cppPrintln

/-- The whole header. -/
def text (s : Settings) : String := String.join [
  "#ifndef ", guardName, "\n#define ", guardName, "\n\n",
  includes s.dialect,
  aliases s, "\n",
  stringHandle s.dialect, "\n",
  statusCodes, "\n",
  linkage s,
  "\n#endif // ", guardName, "\n"]

end SupportLayer.Header
