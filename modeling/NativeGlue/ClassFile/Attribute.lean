import NativeGlue.ClassFile.Annotation

/-!
# Attributes

Classes, fields and methods carry attributes, each with a name and a declared
length. Annotations and the name of the source file are read; any other
attribute is passed over. An attribute that is read must be as long as it
declares.
-/

namespace NativeGlue

/-- What an attribute holds. -/
inductive Attribute where
  | annotations (visible : Bool) (list : List Annotation)
  | parameterAnnotations (lists : List (List Annotation))
  | sourceFile (name : String)
  | other
deriving Inhabited

/-- The kinds of attributes that are read. -/
inductive AttributeKind where
  | annotations (visible : Bool)
  | parameterAnnotations (visible : Bool)
  | sourceFile
deriving DecidableEq, Repr, Inhabited

namespace AttributeKind

/-- Every kind. -/
def all : List AttributeKind :=
  [annotations true, annotations false, parameterAnnotations true,
    parameterAnnotations false, sourceFile]

/-- The name of an attribute. -/
def name : AttributeKind → String
  | annotations true => "RuntimeVisibleAnnotations"
  | annotations false => "RuntimeInvisibleAnnotations"
  | parameterAnnotations true => "RuntimeVisibleParameterAnnotations"
  | parameterAnnotations false => "RuntimeInvisibleParameterAnnotations"
  | sourceFile => "SourceFile"

/-- The kind of an attribute with a given name, if it is read. -/
def ofName? (s : String) : Option AttributeKind :=
  all.find? fun kind => kind.name = s

open NativeGlue.Parser

/-- Reads what an attribute of a kind holds. -/
def readBody (pool : ConstantPool) : AttributeKind → Parser Attribute
  | annotations visible =>
      return .annotations visible (← Annotation.readAll pool visible)
  | parameterAnnotations visible =>
      return .parameterAnnotations (← Annotation.readParameters pool visible)
  | sourceFile => return .sourceFile (← lookup pool.text)

end AttributeKind

namespace Attribute

open NativeGlue.Parser

/-- Reads a window to its end. -/
def readWhole (name : String) (declared : Nat) (w : Cursor)
    (p : Parser Attribute) : Parser Attribute :=
  match p w with
  | .error e => fail e
  | .ok (found, w) =>
      if w.isAtEnd then
        return found
      else
        fail (.attributeLength name declared (declared - w.remaining))

/-- Reads an attribute. -/
def read (pool : ConstantPool) : Parser Attribute := do
  let name ← lookup pool.text
  let declared ← u4
  let w ← window declared.toNat
  match AttributeKind.ofName? name with
  | some kind => readWhole name declared.toNat w (kind.readBody pool)
  | none => return .other

/-- Reads attributes, preceded by their number. -/
def readAll (pool : ConstantPool) : Parser (List Attribute) := do
  let count ← u2
  times (read pool) count.toNat

/-- The annotations of one visibility in an attribute. -/
def annotationsOf (wanted : Bool) : Attribute → List Annotation
  | annotations visible list => if visible = wanted then list else []
  | _ => []

/-- The visible annotations of attributes, and after them the others. -/
def allAnnotations (attributes : List Attribute) : List Annotation :=
  attributes.flatMap (annotationsOf true)
    ++ attributes.flatMap (annotationsOf false)

/-- Two lists of lists joined position by position. -/
def merge : List (List Annotation) → List (List Annotation) →
    List (List Annotation)
  | [], ys => ys
  | xs, [] => xs
  | x :: xs, y :: ys => (x ++ y) :: merge xs ys

/-- The annotations of parameters in an attribute. -/
def parametersOf : Attribute → List (List Annotation)
  | parameterAnnotations lists => lists
  | _ => []

/-- The annotations of parameters, joined over all attributes. -/
def allParameters (attributes : List Attribute) : List (List Annotation) :=
  (attributes.map parametersOf).foldl merge []

/-- The name of a source file in an attribute. -/
def sourceFileOf : Attribute → Option String
  | sourceFile name => some name
  | _ => none

/-- The name of the source file that is given last. -/
def lastSourceFile? (attributes : List Attribute) : Option String :=
  (attributes.filterMap sourceFileOf).getLast?

end Attribute
end NativeGlue
