import NativeGlue.Ascending
import NativeGlue.Descriptor.Basic

/-!
# Methods and classes to bind

A `Method` is a native method that gets a stub, and a `Target` is a class with
the methods of it that are bound. They are made by scanning class files and
read by every later step.
-/

namespace NativeGlue

/-- Properties of a method that decide how it is mapped. -/
structure MethodFlags where
  /-- The stub receives the class and no object. -/
  isStatic : Bool
  /-- Objects passed in or returned change owner. -/
  takesOwnership : Bool
  /-- No reference argument is checked for null. -/
  ignoresNull : Bool
deriving DecidableEq, Repr, Inhabited

namespace MethodFlags

/-- The flags as bits, in the order of the fields. -/
def bits (f : MethodFlags) : Nat :=
  f.isStatic.toNat + 2 * f.takesOwnership.toNat + 4 * f.ignoresNull.toNat

end MethodFlags

/-- A native method to bind. -/
structure Method where
  name : String
  /-- The name of the C++ function that implements the method. -/
  nativeName : String
  /-- The namespace of that function, where the method sets one. -/
  space : Option String
  descriptor : MethodDescriptor
  flags : MethodFlags
  /-- Parameters that are not checked for null, ascending. -/
  uncheckedParams : List Nat
  /-- Rank among the methods of one name, once it is known that there are several. -/
  overloadIndex : Option Nat
deriving DecidableEq, Repr, Inhabited

namespace Method

/-- A method whose implementation has the method's own name. -/
def ofName (name : String) (descriptor : MethodDescriptor)
    (flags : MethodFlags) : Method where
  name
  nativeName := name
  space := none
  descriptor
  flags
  uncheckedParams := []
  overloadIndex := none

/-- The method with its implementation renamed. -/
def withNativeName (m : Method) (nativeName : String) : Method :=
  { m with nativeName }

/-- The method with its implementation in a given namespace. -/
def withSpace (m : Method) (space : String) : Method :=
  { m with space := some space }

/-- The method with one more parameter that is not checked for null. -/
def withUncheckedParam (m : Method) (index : Nat) : Method :=
  { m with uncheckedParams := Ascending.insert index m.uncheckedParams }

/-- Whether the stub refuses null for a parameter. -/
def nullChecked (m : Method) (index : Nat) : Bool :=
  !m.flags.ignoresNull && !Ascending.contains m.uncheckedParams index

/-- The name followed by the descriptor. -/
def signature (m : Method) : String :=
  m.name ++ m.descriptor.encode

end Method

/-- Code written by hand that is copied into the unit of a target. -/
structure CustomCode where
  /-- The resource that the code was loaded from. -/
  path : String
  contents : String
deriving DecidableEq, Repr, Inhabited

/-- Whether a target has a method that needs an object. -/
inductive TargetKind where
  | allStatic
  | hasInstance
deriving DecidableEq, Repr, Inhabited

/-- The word for a kind of target. -/
def TargetKind.name : TargetKind → String
  | allStatic => "Static"
  | hasInstance => "Instance"

/-- A class with the methods of it that are bound. -/
structure Target where
  name : ClassName
  methods : List Method
  /-- The namespace of the implementations; the package stands in for none. -/
  space : Option String := none
  /-- Headers that the unit of the target includes. -/
  includes : List String := []
  /-- Code that follows the stubs of the target. -/
  customCode : List CustomCode := []
deriving DecidableEq, Repr, Inhabited

namespace Target

/-- A target is static if all its methods are. -/
def kind (t : Target) : TargetKind :=
  if t.methods.all fun m => m.flags.isStatic then .allStatic else .hasInstance

end Target
end NativeGlue
