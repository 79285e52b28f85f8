import NativeGlue.Binding
import NativeGlue.Mapping.Primitive

/-!
# Native types of descriptors

Every type that a stub can carry is mapped to the type it has in `jni.h`, the
C++ type that the implementation sees, and who owns the value:

* a primitive is copied;
* a string is owned: `const char*` as parameter, `std::string` as result;
* an object is borrowed, or owned by a method that takes ownership;
* an array of one dimension over a primitive is owned.

No other type is mapped. A method with such a type is left out, and the rest
of its class is still bound.
-/

namespace NativeGlue

/-- Where a type stands in a signature. -/
inductive Position where
  | param
  | result
deriving DecidableEq, Repr, Inhabited

/-- Who has to release a value. -/
inductive Ownership where
  /-- A copy: nothing to release. -/
  | byValue
  /-- A local reference, which the virtual machine keeps during the call. -/
  | borrowed
  /-- Acquired by the stub, which releases it or hands it on. -/
  | owned
deriving DecidableEq, Repr, Inhabited

namespace Ownership

/-- The word for a kind of ownership. -/
def name : Ownership → String
  | byValue => "by-value"
  | borrowed => "borrowed"
  | owned => "owned"

/-- Whether the stub pairs the value with a release. -/
def needsRelease (o : Ownership) : Bool :=
  o = owned

end Ownership

/-- How a value crosses to native code and back. -/
inductive Carriage where
  | primitive (kind : Primitive)
  | string
  | object (owned : Bool)
  | array (kind : Primitive)
deriving DecidableEq, Repr, Inhabited

/-- The words for a carriage. -/
def Carriage.name : Carriage → String
  | primitive kind => "primitive:" ++ kind.name
  | string => "string"
  | object true => "object:owned"
  | object false => "object:borrowed"
  | array kind => "array:" ++ kind.name

/-- A type with its native form. -/
structure MappedType where
  descriptor : TypeDescriptor
  jniType : String
  cppType : String
  ownership : Ownership
  carriage : Carriage
deriving DecidableEq, Repr, Inhabited

/-- Why a type has no native form. -/
inductive Unsupported where
  | multiDimensionalArray (dimensions : Nat)
  | referenceArray
  | voidParameter
deriving DecidableEq, Repr, Inhabited

/-- The wording of a reason. -/
def Unsupported.message : Unsupported → String
  | multiDimensionalArray dimensions =>
      toString dimensions ++ "-dimensional arrays are not supported"
  | referenceArray => "arrays of reference types are not supported"
  | voidParameter => "void is not a valid parameter type"

/-- A method that is left out, and the type because of which it is. -/
structure UnsupportedMethod where
  owner : ClassName
  method : String
  descriptor : String
  offending : String
  reason : Unsupported
deriving DecidableEq, Repr, Inhabited

/-- The wording of the report on a method that is left out. -/
def UnsupportedMethod.message (u : UnsupportedMethod) : String :=
  u.owner.binary ++ "." ++ u.method ++ u.descriptor ++ ": "
    ++ u.reason.message ++ " (offending type '" ++ u.offending ++ "')"

/-- A method of which every type is mapped. -/
structure MappedMethod where
  method : Method
  params : List MappedType
  ret : MappedType
deriving DecidableEq, Repr, Inhabited

/-- The parameters that the stub acquires, with their positions. -/
def MappedMethod.ownedParams (m : MappedMethod) : List (Nat × MappedType) :=
  (m.params.zipIdx.filter fun (p, _) => p.ownership.needsRelease).map
    fun (p, i) => (i, p)

/-- A target with its methods divided into mapped and left out. -/
structure MappedTarget where
  /-- The target with all its methods. -/
  target : Target
  methods : List MappedMethod
  skipped : List UnsupportedMethod
deriving DecidableEq, Repr, Inhabited

namespace Mapping

/-- The native form of an array over a primitive. -/
def ofArray (position : Position) (t : TypeDescriptor) (kind : Primitive) :
    MappedType where
  descriptor := t
  jniType := kind.jniArrayType
  cppType :=
    match position with
    | .param => "jnibridge::Span<" ++ kind.jniType ++ ">"
    | .result => "std::vector<" ++ kind.jniType ++ ">"
  ownership := .owned
  carriage := .array kind

/-- The native form of an object. -/
def ofObject (position : Position) (takesOwnership : Bool)
    (t : TypeDescriptor) : MappedType where
  descriptor := t
  jniType := "jobject"
  cppType :=
    match position, takesOwnership with
    | .param, true => "jnibridge::GlobalRef"
    | _, _ => "jobject"
  ownership := if takesOwnership then .owned else .borrowed
  carriage := .object takesOwnership

/-- The native form of a type. -/
def mapType (position : Position) (takesOwnership : Bool)
    (t : TypeDescriptor) : Except Unsupported MappedType :=
  match t with
  | .primitive kind =>
      if kind.isVoid && position = .param then
        .error .voidParameter
      else
        .ok ⟨t, kind.jniType, kind.cppType, .byValue, .primitive kind⟩
  | .string =>
      let cppType :=
        match position with
        | .param => "const char*"
        | .result => "std::string"
      .ok ⟨t, "jstring", cppType, .owned, .string⟩
  | .object _ => .ok (ofObject position takesOwnership t)
  | .array element dimensions =>
      if 1 < dimensions then
        .error (.multiDimensionalArray dimensions)
      else
        match element with
        | .primitive kind =>
            if kind.isVoid then
              .error .voidParameter
            else
              .ok (ofArray position t kind)
        | _ => .error .referenceArray

/-- The native forms of parameters; the first type without one is an error. -/
def mapParams (takesOwnership : Bool) :
    List TypeDescriptor → Except (TypeDescriptor × Unsupported) (List MappedType)
  | [] => .ok []
  | t :: rest =>
      match mapType .param takesOwnership t with
      | .error reason => .error (t, reason)
      | .ok p =>
          match mapParams takesOwnership rest with
          | .error e => .error e
          | .ok ps => .ok (p :: ps)

/-- The native form of a method, parameters before the result. -/
def mapMethod (owner : ClassName) (m : Method) :
    Except UnsupportedMethod MappedMethod :=
  let owning := m.flags.takesOwnership
  let unsupported (t : TypeDescriptor) (reason : Unsupported) :
      UnsupportedMethod :=
    ⟨owner, m.name, m.descriptor.encode, t.encode, reason⟩
  match mapParams owning m.descriptor.params with
  | .error (t, reason) => .error (unsupported t reason)
  | .ok params =>
      match mapType .result owning m.descriptor.ret with
      | .error reason => .error (unsupported m.descriptor.ret reason)
      | .ok ret => .ok ⟨m, params, ret⟩

/-- The methods of a target that are mapped, in order. -/
def mappable (t : Target) : List MappedMethod :=
  t.methods.filterMap fun m => (mapMethod t.name m).toOption

/-- The methods of a target that are left out, in order. -/
def unmappable (t : Target) : List UnsupportedMethod :=
  t.methods.filterMap fun m =>
    match mapMethod t.name m with
    | .error e => some e
    | .ok _ => none

/-- A target with every method mapped or left out. -/
def mapTarget (t : Target) : MappedTarget :=
  ⟨t, mappable t, unmappable t⟩

end Mapping
end NativeGlue
