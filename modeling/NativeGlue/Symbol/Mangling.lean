import NativeGlue.Text.Digits
import NativeGlue.Text.Utf16

/-!
# Mangled names

The virtual machine finds a native function by a symbol built from the names
of its class and method and, where the method is overloaded, of its parameter
types. Mangling makes a C identifier of each part: a separator becomes `_`,
and what is no letter or digit becomes an escape that starts with `_`.
-/

namespace NativeGlue
namespace Symbol

/-- A letter or digit, which stands for itself. -/
def isPlain (u : UInt16) : Bool :=
  let n := u.toNat
  (48 ≤ n && n ≤ 57) || (65 ≤ n && n ≤ 90) || (97 ≤ n && n ≤ 122)

/-- One UTF-16 unit as part of an identifier. -/
def mangleUnit (u : UInt16) : List Char :=
  if u = 0x2F ∨ u = 0x2E then ['_']
  else if u = 0x5F then ['_', '1']
  else if u = 0x3B then ['_', '2']
  else if u = 0x5B then ['_', '3']
  else if isPlain u then [Char.ofNat u.toNat]
  else '_' :: '0' :: Text.digits 16 4 u.toNat

/-- A class name, a method name or a parameter list as part of an identifier. -/
def mangle (part : String) : String :=
  String.ofList ((Text.units part.toList).flatMap mangleUnit)

/-- The symbol of a method that is not overloaded. -/
def shortName (className method : String) : String :=
  "Java_" ++ mangle className ++ "_" ++ mangle method

/-- The symbol that also tells the parameter types. -/
def longName (className method params : String) : String :=
  shortName className method ++ "__" ++ mangle params

end Symbol
end NativeGlue
