import NativeGlue.Text.Basic

/-!
# Class names

A class name is kept in its internal form, `com/example/Math`. The binary
form, `com.example.Math`, is what people read and what messages print.
-/

namespace NativeGlue

/-- The name of a class or interface in internal form. -/
structure ClassName where
  internal : String
deriving DecidableEq, Repr, Inhabited

namespace ClassName

/-- The class name with a given binary form; internal forms pass unchanged. -/
def ofBinary (binary : String) : ClassName :=
  ⟨Text.replaceChar '.' '/' binary⟩

/-- The name with dots between its segments. -/
def binary (c : ClassName) : String :=
  Text.replaceChar '/' '.' c.internal

instance : ToString ClassName := ⟨binary⟩

/-- `java.lang.String`. -/
def string : ClassName := ⟨"java/lang/String"⟩

/-- `java.lang.Object`. -/
def object : ClassName := ⟨"java/lang/Object"⟩

/-- Whether the name is that of `java.lang.String`. -/
def isString (c : ClassName) : Bool :=
  c = string

/-- The part of the name before its last segment, if there is one. -/
def package? (c : ClassName) : Option String :=
  (Text.splitLast? '/' c.internal.toList).map fun parts =>
    String.ofList parts.1

/-- The last segment of the name. -/
def simple (c : ClassName) : String :=
  match Text.splitLast? '/' c.internal.toList with
  | some (_, name) => String.ofList name
  | none => c.internal

/-- The segments of the package; none for a class without a package. -/
def packageSegments (c : ClassName) : List String :=
  match Text.splitLast? '/' c.internal.toList with
  | some (package, _) => (Text.fields '/' package).map String.ofList
  | none => []

/-- A segment that may stand in a class name. -/
def isSegment (segment : List Char) : Bool :=
  !segment.isEmpty && segment.all fun c => c ≠ '.' && c ≠ ';' && c ≠ '['

/-- Whether every segment of the name is non-empty and free of `.`, `;`, `[`. -/
def isValid (c : ClassName) : Bool :=
  (Text.fields '/' c.internal.toList).all isSegment

/-- The order of names: by code points of the internal form. -/
def le (a b : ClassName) : Bool :=
  Text.le a.internal b.internal

/-- Names in ascending order. -/
def sort (names : List ClassName) : List ClassName :=
  names.mergeSort le

end ClassName
end NativeGlue
