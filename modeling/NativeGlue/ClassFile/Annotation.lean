import NativeGlue.ClassFile.ConstantPool
import NativeGlue.Descriptor.Parser

/-!
# Annotations

An annotation has a type and named elements, and an element may hold further
annotations. Values nest at most `maxDepth` deep.
-/

namespace NativeGlue

/-- The value of an element. Floating-point values are kept as their bits. -/
inductive ElementValue where
  | byte (value : Int8)
  | char (value : UInt16)
  | short (value : Int16)
  | int (value : Int32)
  | long (value : Int64)
  | float (bits : UInt32)
  | double (bits : UInt64)
  | boolean (value : Bool)
  | string (text : String)
  | enumConstant (type constant : String)
  | classLiteral (descriptor : String)
  | nested (type : String) (elements : List (String × ElementValue))
      (visible : Bool)
  | array (items : List ElementValue)
deriving Inhabited

/-- An annotation. -/
structure Annotation where
  /-- The descriptor of its type. -/
  type : String
  /-- The elements that are given, in order. -/
  elements : List (String × ElementValue)
  /-- Whether the annotation is kept for reflection. -/
  visible : Bool
deriving Inhabited

/-- The class that a descriptor is the type of. -/
def classOfDescriptor? (descriptor : String) : Option ClassName :=
  match TypeDescriptor.parse descriptor with
  | .ok (.object name) => some name
  | .ok .string => some .string
  | _ => none

namespace Annotation

/-- The type of an annotation as a class. -/
def typeName? (a : Annotation) : Option ClassName :=
  classOfDescriptor? a.type

/-- Whether an annotation has a given type. -/
def hasType (a : Annotation) (name : ClassName) : Bool :=
  a.typeName? = some name

/-- The first element of a given name. -/
def element? (a : Annotation) (name : String) : Option ElementValue :=
  a.elements.lookup name

/-- The element that has no name in source. -/
def value? (a : Annotation) : Option ElementValue :=
  a.element? "value"

end Annotation

namespace ElementValue

/-- The text of a string. -/
def string? : ElementValue → Option String
  | string text => some text
  | _ => none

/-- The strings of a value, which may stand alone or in an array. -/
def strings : ElementValue → List String
  | string text => [text]
  | array items => items.filterMap string?
  | _ => []

/-- The truth value. -/
def boolean? : ElementValue → Option Bool
  | boolean value => some value
  | _ => none

/-- The class of a class literal; primitives and arrays have none. -/
def class? : ElementValue → Option ClassName
  | classLiteral descriptor => classOfDescriptor? descriptor
  | _ => none

/-- The classes of a value, whose literals stand alone or in an array. -/
def classes : ElementValue → List ClassName
  | array items => items.filterMap class?
  | value => value.class?.toList

/-- The annotation. -/
def nested? : ElementValue → Option Annotation
  | nested type elements visible => some ⟨type, elements, visible⟩
  | _ => none

end ElementValue

namespace Annotation

open NativeGlue.Parser

/-- How deep values may nest. -/
def maxDepth : Nat := 32

/-- Reads the type and the elements of an annotation. -/
def readParts (pool : ConstantPool) (value : Parser ElementValue) :
    Parser (String × List (String × ElementValue)) := do
  let type ← lookup pool.text
  let count ← u2
  let elements ← times
    (do
      let name ← lookup pool.text
      let v ← value
      return (name, v))
    count.toNat
  return (type, elements)

/-- Reads a value whose tag has been read; `inner` reads the values inside. -/
def readTagged (pool : ConstantPool) (visible : Bool)
    (inner : Parser ElementValue) (offset : Nat) (tag : Char) :
    Parser ElementValue :=
  match tag with
  | 'B' => return .byte (← lookup pool.integer).toInt8
  | 'C' => return .char (← lookup pool.integer).toUInt32.toUInt16
  | 'S' => return .short (← lookup pool.integer).toInt16
  | 'I' => return .int (← lookup pool.integer)
  | 'Z' => return .boolean ((← lookup pool.integer) ≠ 0)
  | 'J' => return .long (← lookup pool.long)
  | 'F' => return .float (← lookup pool.float)
  | 'D' => return .double (← lookup pool.double)
  | 's' => return .string (← lookup pool.text)
  | 'e' => return .enumConstant (← lookup pool.text) (← lookup pool.text)
  | 'c' => return .classLiteral (← lookup pool.text)
  | '@' => do
      let (type, elements) ← readParts pool inner
      return .nested type elements visible
  | '[' => do
      let count ← u2
      return .array (← times inner count.toNat)
  | other => fail (.unknownElementTag other offset)

/-- Reads a value in which at most `budget` values nest, itself included. -/
def readValue (pool : ConstantPool) (visible : Bool) :
    Nat → Parser ElementValue
  | 0 => do
      let offset ← position
      fail (.nestingTooDeep maxDepth offset)
  | budget + 1 => do
      let offset ← position
      let tag ← u1
      readTagged pool visible (readValue pool visible budget) offset
        (Char.ofNat tag.toNat)

/-- Reads an annotation. -/
def read (pool : ConstantPool) (visible : Bool) : Parser Annotation := do
  let (type, elements) ← readParts pool (readValue pool visible maxDepth)
  return ⟨type, elements, visible⟩

/-- Reads the annotations of a class or method. -/
def readAll (pool : ConstantPool) (visible : Bool) :
    Parser (List Annotation) := do
  let count ← u2
  times (read pool visible) count.toNat

/-- Reads the annotations of parameters, a list for each of them. -/
def readParameters (pool : ConstantPool) (visible : Bool) :
    Parser (List (List Annotation)) := do
  let count ← u1
  times (readAll pool visible) count.toNat

end Annotation
end NativeGlue
