import NativeGlue.ClassName
import NativeGlue.Primitive

/-!
# Type and method descriptors

A `TypeDescriptor` says what a field, a parameter or a result holds, and a
`MethodDescriptor` lists the parameters of a method and its result. This
module gives the types and their encoding:

* `I` is a primitive, `Lcom/example/Point;` an object, `[[J` an array of two
  dimensions over a primitive;
* `(ILjava/lang/String;)V` is a method descriptor.

`java.lang.String` is a type of its own, since strings cross to native code
by a rule of their own; it is encoded as the object that it is.
-/

namespace NativeGlue

/-- The type of a field, parameter or result. -/
inductive TypeDescriptor where
  | primitive (kind : Primitive)
  | object (name : ClassName)
  | array (element : TypeDescriptor) (dimensions : Nat)
  | string
deriving DecidableEq, Repr, Inhabited

namespace TypeDescriptor

/-- The result type of a method that returns nothing. -/
def void : TypeDescriptor := primitive .void

/-- The largest number of dimensions that an array may have. -/
def maxDimensions : Nat := 255

/-- The type of a class, where `java.lang.String` is the type `string`. -/
def ofClass (name : ClassName) : TypeDescriptor :=
  if name.isString then string else object name

/--
An array type over any element. An array of arrays is an array with the
dimensions of both, of which there are at most `maxDimensions`.
-/
def arrayOf : TypeDescriptor → Nat → TypeDescriptor
  | array element inner, dimensions =>
      array element (min maxDimensions (inner + dimensions))
  | element, dimensions => array element dimensions

/-- Whether the type is `void`. -/
def isVoid (t : TypeDescriptor) : Bool :=
  t = void

/-- Whether values of the type are references. -/
def isReference : TypeDescriptor → Bool
  | primitive _ => false
  | _ => true

/-- The characters of a descriptor. -/
def chars : TypeDescriptor → List Char
  | primitive kind => [kind.code]
  | object name => 'L' :: (name.internal.toList ++ [';'])
  | array element dimensions =>
      List.replicate dimensions '[' ++ element.chars
  | string => 'L' :: (ClassName.string.internal.toList ++ [';'])

/-- The descriptor of a type. -/
def encode (t : TypeDescriptor) : String :=
  String.ofList t.chars

/-- The type as Java source spells it. -/
def javaName : TypeDescriptor → String
  | primitive kind => kind.name
  | object name => name.binary
  | array element dimensions =>
      element.javaName ++ String.join (List.replicate dimensions "[]")
  | string => ClassName.string.binary

end TypeDescriptor

/-- The parameters and the result of a method. -/
structure MethodDescriptor where
  params : List TypeDescriptor
  ret : TypeDescriptor
deriving DecidableEq, Repr, Inhabited

namespace MethodDescriptor

/-- The characters of the parameters, one after another. -/
def paramChars (d : MethodDescriptor) : List Char :=
  d.params.flatMap TypeDescriptor.chars

/-- The characters of the descriptor. -/
def chars (d : MethodDescriptor) : List Char :=
  '(' :: (d.paramChars ++ ')' :: d.ret.chars)

/-- The descriptor of a method. -/
def encode (d : MethodDescriptor) : String :=
  String.ofList d.chars

/--
The parameters alone, without parentheses: the part of a descriptor by which
overloads of one name differ on the native side.
-/
def encodeParams (d : MethodDescriptor) : String :=
  String.ofList d.paramChars

end MethodDescriptor
end NativeGlue
