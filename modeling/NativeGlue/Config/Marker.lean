import NativeGlue.ClassName

/-!
# Markers

A marker says which classes are bound: those with an annotation, those that
implement an interface, or those that declare a native method.
-/

namespace NativeGlue

/-- What makes a class a target; names are in either form. -/
inductive Marker where
  | annotated (name : String)
  /-- An interface that is implemented directly or through supertypes. -/
  | implementing (name : String)
  | nativeMethods
deriving DecidableEq, Repr, Inhabited

namespace Marker

/-- The class that a marker names. -/
def class? : Marker → Option ClassName
  | annotated name => some (ClassName.ofBinary name)
  | implementing name => some (ClassName.ofBinary name)
  | nativeMethods => none

/-- A marker on the command line. -/
def render : Marker → String
  | annotated name => "annotation:" ++ name
  | implementing name => "interface:" ++ name
  | nativeMethods => "native-methods"

/-- Reads a marker of the command line. -/
def parse (s : String) : Option Marker :=
  match Text.splitFirst? ':' s.toList with
  | some (kind, name) =>
      if name.isEmpty then none
      else if String.ofList kind = "annotation" then
        some (annotated (String.ofList name))
      else if String.ofList kind = "interface" then
        some (implementing (String.ofList name))
      else none
  | none => if s = "native-methods" then some nativeMethods else none

/-- The wording for a text that is no marker. -/
def invalidMessage (s : String) : String :=
  "invalid marker '" ++ s
    ++ "', expected annotation:<name>, interface:<name> or native-methods"

end Marker
end NativeGlue
