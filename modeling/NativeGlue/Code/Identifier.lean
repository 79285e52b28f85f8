import NativeGlue.Text.Basic

/-!
# Identifiers and namespaces

Names from Java may be no names in C++. `sanitize` makes an identifier of any
text, and a namespace is a list of such identifiers.
-/

namespace NativeGlue
namespace Code

/--
The words that cannot name a function or namespace: the keywords of C++, and
the two namespaces that generated code itself uses.
-/
def reservedWords : List String :=
  ["alignas", "alignof", "and", "and_eq", "asm", "auto", "bitand", "bitor",
    "bool", "break", "case", "catch", "char", "char8_t", "char16_t",
    "char32_t", "class", "compl", "concept", "const", "consteval",
    "constexpr", "constinit", "const_cast", "continue", "co_await",
    "co_return", "co_yield", "decltype", "default", "delete", "do",
    "double", "dynamic_cast", "else", "enum", "explicit", "export", "extern",
    "false", "float", "for", "friend", "goto", "if", "inline", "int", "long",
    "mutable", "namespace", "new", "noexcept", "not", "not_eq", "nullptr",
    "operator", "or", "or_eq", "private", "protected", "public", "register",
    "reinterpret_cast", "requires", "return", "short", "signed", "sizeof",
    "static", "static_assert", "static_cast", "struct", "switch", "template",
    "this", "thread_local", "throw", "true", "try", "typedef", "typeid",
    "typename", "union", "unsigned", "using", "virtual", "void", "volatile",
    "wchar_t", "while", "xor", "xor_eq", "jnibridge", "std"]

/-- A character that may stand in an identifier. -/
def isIdentifierChar (c : Char) : Bool :=
  c.isAlphanum || c = '_'

/-- A text that starts like an identifier: not empty, and with no digit. -/
def startsIdentifier : List Char → Bool
  | [] => false
  | c :: _ => !c.isDigit

/--
An identifier for a text: other characters become `_`, a digit in front is
preceded by `_`, and a reserved word is followed by `_`.
-/
def sanitize (segment : String) : String :=
  let cs := segment.toList.map fun c => if isIdentifierChar c then c else '_'
  let name := String.ofList (if startsIdentifier cs then cs else '_' :: cs)
  if reservedWords.contains name then name ++ "_" else name

/-- The parts of a namespace written with `::` or `.` between them. -/
def spaceParts : List Char → List (List Char)
  | [] => [[]]
  | ':' :: ':' :: cs => [] :: spaceParts cs
  | '.' :: cs => [] :: spaceParts cs
  | c :: cs =>
      match spaceParts cs with
      | [] => [[c]]
      | part :: parts => (c :: part) :: parts

/-- The segments of a namespace as written; empty parts do not count. -/
def splitSpace (space : String) : List String :=
  ((spaceParts space.toList).filter fun part => !part.isEmpty).map
    fun part => sanitize (String.ofList part)

/-- A namespace as it is opened. -/
def joinSpace (segments : List String) : String :=
  String.intercalate "::" segments

/-- A name in a namespace, from the global namespace on. -/
def qualify (segments : List String) (name : String) : String :=
  String.join (segments.map fun segment => "::" ++ segment) ++ "::" ++ name

end Code
end NativeGlue
