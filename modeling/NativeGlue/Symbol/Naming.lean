import NativeGlue.Descriptor.Basic
import NativeGlue.Symbol.Mangling

/-!
# Naming schemes

How the symbol of a native function, its entry point, is chosen. Two schemes
follow the look-up of the virtual machine; the third numbers overloads and is
reached only through the registration table.
-/

namespace NativeGlue

/-- A rule for entry points. -/
inductive NamingScheme where
  /-- The short name, and the long name for an overloaded method. -/
  | jni
  /-- The long name for every method. -/
  | jniLong
  /-- The short name, and a number after it for an overloaded method. -/
  | indexed
deriving DecidableEq, Repr, Inhabited

namespace NamingScheme

/-- Every scheme; the first is the usual one. -/
def all : List NamingScheme :=
  [jni, jniLong, indexed]

/-- The name of a scheme in a configuration. -/
def name : NamingScheme → String
  | jni => "jni"
  | jniLong => "jni-long"
  | indexed => "indexed"

/-- The scheme with a given name. -/
def ofName? (s : String) : Option NamingScheme :=
  all.find? fun scheme => scheme.name = s

/-- The wording for a name that no scheme has. -/
def unknownMessage (s : String) : String :=
  "unknown naming scheme '" ++ s
    ++ "' (expected jni, jni-long or indexed)"

/--
The entry point of a method. The overload index is there exactly when the
class has another method of that name.
-/
def entryPoint (scheme : NamingScheme) (owner : ClassName) (method : String)
    (descriptor : MethodDescriptor) (overloadIndex : Option Nat) : String :=
  let short := Symbol.shortName owner.internal method
  let long := Symbol.longName owner.internal method descriptor.encodeParams
  match scheme, overloadIndex with
  | jniLong, _ => long
  | jni, some _ => long
  | jni, none => short
  | indexed, none => short
  | indexed, some index => short ++ "__" ++ toString index

end NamingScheme
end NativeGlue
