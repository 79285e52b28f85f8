import NativeGlue.Stub.Lowering

/-!
# Names of implementations

C++ cannot tell functions apart that differ in their result alone, so methods
of a target whose implementations would have the same namespace, name and
parameters get a number after their names. A number is passed over when the
name it would make is in use in that namespace.
-/

namespace NativeGlue
namespace Lowering

/-- What C++ tells functions apart by. -/
structure Prototype where
  space : List String
  name : String
  params : List String
deriving DecidableEq, Repr, Inhabited

/-- The prototype of a method under its own native name. -/
def Prototype.ofMethod (t : Target) (m : MappedMethod) : Prototype where
  space := spaceOf t m.method
  name := Code.sanitize m.method.nativeName
  params :=
    (if m.method.flags.isStatic then [] else ["jobject"])
      ++ m.params.map MappedType.cppType

/-- A name with a number after it. -/
def numbered (name : String) (n : Nat) : String :=
  name ++ "_" ++ toString n

/-- The least number that makes a name which is not taken. -/
def freeNumber (taken : List (List String × String)) (p : Prototype) : Nat :=
  ((List.range (taken.length + 1)).find? fun n =>
    !taken.contains (p.space, numbered p.name n)).getD taken.length

/-- The names of implementations, given those that are taken. -/
def namesFrom (all : List Prototype) (taken : List (List String × String)) :
    List Prototype → List String
  | [] => []
  | p :: rest =>
      if all.count p = 1 then
        p.name :: namesFrom all taken rest
      else
        let name := numbered p.name (freeNumber taken p)
        name :: namesFrom all (taken ++ [(p.space, name)]) rest

/-- The names of the implementations of some prototypes. -/
def implementationNames (all : List Prototype) : List String :=
  let kept := all.filter fun p => all.count p = 1
  namesFrom all (kept.map fun p => (p.space, p.name)) all

/-- The stubs of a target. -/
def lowerTarget (s : SignedTarget) (exceptionClass : String) :
    List LoweredStub :=
  let all := s.methods.map fun (m, _) => Prototype.ofMethod s.target m
  (s.methods.zip (implementationNames all)).map
    fun ((m, signature), implementation) =>
      lower s.target m signature implementation exceptionClass

end Lowering
end NativeGlue
