import Feedforward.Target.Basic

/-! Names that cannot be a class name in the generated code: the words of the
target language, and the names that the generated code itself binds. -/
namespace Feedforward.Target

def words : Target → List String
  | cpp => [
    "alignas", "alignof", "and", "and_eq", "asm", "auto", "bitand", "bitor", "bool",
    "break", "case", "catch", "char", "char8_t", "char16_t", "char32_t", "class",
    "compl", "concept", "const", "consteval", "constexpr", "constinit", "const_cast",
    "continue", "co_await", "co_return", "co_yield", "decltype", "default", "delete",
    "do", "double", "dynamic_cast", "else", "enum", "explicit", "export", "extern",
    "false", "float", "for", "friend", "goto", "if", "inline", "int", "long",
    "mutable", "namespace", "new", "noexcept", "not", "not_eq", "nullptr", "operator",
    "or", "or_eq", "private", "protected", "public", "register", "reinterpret_cast",
    "requires", "return", "short", "signed", "sizeof", "static", "static_assert",
    "static_cast", "struct", "switch", "template", "this", "thread_local", "throw",
    "true", "try", "typedef", "typeid", "typename", "union", "unsigned", "using",
    "virtual", "void", "volatile", "wchar_t", "while", "xor", "xor_eq"]
  | python => [
    "False", "None", "True", "and", "as", "assert", "async", "await", "break", "class",
    "continue", "def", "del", "elif", "else", "except", "finally", "for", "from",
    "global", "if", "import", "in", "is", "lambda", "nonlocal", "not", "or", "pass",
    "raise", "return", "try", "while", "with", "yield"]
  | javascript => [
    "arguments", "await", "break", "case", "catch", "class", "const", "continue",
    "debugger", "default", "delete", "do", "else", "enum", "eval", "export", "extends",
    "false", "finally", "for", "function", "if", "implements", "import", "in",
    "instanceof", "interface", "let", "new", "null", "package", "private", "protected",
    "public", "return", "static", "super", "switch", "this", "throw", "true", "try",
    "typeof", "var", "void", "while", "with", "yield"]

/-- Names that the generated code refers to beside its class. -/
def bindings : Target → List String
  | cpp => ["Eigen", "forward"]
  | python => ["np"]
  | javascript => ["tf", "require", "module", "exports"]

/-- Whether a name has the form of a weight or bias: `W` or `b` and decimal digits. -/
def isParameterName : List Char → Bool
  | 'W' :: index | 'b' :: index => !index.isEmpty && index.all Char.isDigit
  | _ => false

/-- Only where parameters are members beside the class name can they clash with it. -/
def hasMemberNames : Target → Bool
  | cpp => true
  | python | javascript => false

def isReserved (t : Target) (name : String) : Bool :=
  t.words.contains name || t.bindings.contains name ||
    (t.hasMemberNames && isParameterName name.toList)

end Feedforward.Target
