import NativeGlue.ClassFile.Basic

/-!
# Writing class files

A class file without fields or code is written from a description. Constants
enter the pool when they are first used, each once, so the index of a constant
never changes while the pool grows; an annotation's contents enter before the
name of the attribute that holds it.
-/

namespace NativeGlue

/-- The value of an element to write. -/
inductive ElementSpec where
  | string (text : String)
  | strings (texts : List String)
  | boolean (value : Bool)
  /-- Class literals, by internal name. -/
  | classes (names : List String)
  /-- An annotation inside; its own visibility is not written. -/
  | nested (type : String) (visible : Bool)
      (elements : List (String × ElementSpec))
deriving Inhabited

/-- An annotation to write. -/
structure AnnotationSpec where
  type : String
  visible : Bool
  elements : List (String × ElementSpec)
deriving Inhabited

/-- A method to write. -/
structure MethodSpec where
  access : MethodAccess
  name : String
  descriptor : String
  annotations : List AnnotationSpec
  /-- Annotations of parameters, each with the position of its parameter. -/
  parameterAnnotations : List (Nat × AnnotationSpec)
deriving Inhabited

/-- A class to write. -/
structure ClassSpec where
  name : String
  majorVersion : UInt16 := 69
  minorVersion : UInt16 := 0
  access : ClassAccess := ⟨0x0021⟩
  superclass : Option String := some "java/lang/Object"
  interfaces : List String := []
  methods : List MethodSpec := []
  annotations : List AnnotationSpec := []
  sourceFile : Option String := none
deriving Inhabited

/-- The constants that a written class may have. -/
inductive WrittenConstant where
  | utf8 (text : String)
  | classRef (name : Nat)
  | integer (value : UInt32)
deriving DecidableEq, Repr, Inhabited

namespace Bytes

/-- A number in two bytes; higher bits are dropped. -/
def u2 (n : Nat) : List UInt8 :=
  [UInt8.ofNat (n / 256), UInt8.ofNat n]

/-- A number in four bytes; higher bits are dropped. -/
def u4 (n : Nat) : List UInt8 :=
  u2 (n / 65536) ++ u2 n

end Bytes

namespace WrittenConstant

/-- The bytes of a constant. -/
def bytes : WrittenConstant → List UInt8
  | utf8 text =>
      let encoded := Text.ModifiedUtf8.encode text
      1 :: (Bytes.u2 encoded.length ++ encoded)
  | classRef name => 7 :: Bytes.u2 name
  | integer value => 3 :: Bytes.u4 value.toNat

end WrittenConstant

/-- The constants used so far, in the order of their indices. -/
structure PoolBuilder where
  constants : List WrittenConstant
deriving DecidableEq, Repr, Inhabited

namespace PoolBuilder

/-- The pool without constants. -/
def empty : PoolBuilder := ⟨[]⟩

/-- The index of a constant, which enters the pool if it is not there. -/
def intern (c : WrittenConstant) : StateM PoolBuilder Nat := fun pool =>
  match pool.constants.findIdx? fun d => d = c with
  | some i => (i + 1, pool)
  | none => (pool.constants.length + 1, ⟨pool.constants ++ [c]⟩)

/-- The index of a text. -/
def text (s : String) : StateM PoolBuilder Nat :=
  intern (.utf8 s)

/-- The index of a class. -/
def classRef (name : String) : StateM PoolBuilder Nat := do
  intern (.classRef (← text name))

/-- The bytes of the pool, its count of slots in front. -/
def bytes (p : PoolBuilder) : List UInt8 :=
  Bytes.u2 (p.constants.length + 1)
    ++ p.constants.flatMap WrittenConstant.bytes

end PoolBuilder

/-- Bytes that are written while constants enter the pool. -/
abbrev Writer := StateM PoolBuilder (List UInt8)

namespace Writer

open PoolBuilder

/-- Writes nothing. -/
def nothing : Writer := pure []

/-- Writes one thing after another. -/
def seq (a b : Writer) : Writer := do
  let x ← a
  let y ← b
  return x ++ y

/-- Writes several things, one after another. -/
def all : List Writer → Writer
  | [] => nothing
  | w :: ws => seq w (all ws)

/-- Writes an index in two bytes. -/
def index (i : StateM PoolBuilder Nat) : Writer :=
  return Bytes.u2 (← i)

/-- Writes bytes that need no constant. -/
def plain (bytes : List UInt8) : Writer := pure bytes

/-- Writes a list, preceded by its length in two bytes. -/
def counted (ws : List Writer) : Writer :=
  seq (plain (Bytes.u2 ws.length)) (all ws)

/-- Writes a tag and the index of a text. -/
def taggedText (tag : Char) (s : String) : Writer :=
  seq (plain [UInt8.ofNat tag.toNat]) (index (text s))

end Writer

namespace ElementSpec

open PoolBuilder Writer

mutual

/-- Writes the value of an element. -/
def write : ElementSpec → Writer
  | string s => taggedText 's' s
  | strings texts =>
      seq (plain [UInt8.ofNat '['.toNat])
        (counted (texts.map (taggedText 's')))
  | boolean value =>
      seq (plain [UInt8.ofNat 'Z'.toNat])
        (index (intern (.integer (if value then 1 else 0))))
  | classes names =>
      seq (plain [UInt8.ofNat '['.toNat])
        (counted (names.map fun n => taggedText 'c' ("L" ++ n ++ ";")))
  | nested type _ elements =>
      seq (plain [UInt8.ofNat '@'.toNat])
        (seq (index (text type))
          (seq (plain (Bytes.u2 elements.length)) (writeElements elements)))

/-- Writes elements with their names. -/
def writeElements : List (String × ElementSpec) → Writer
  | [] => nothing
  | e :: rest => seq (writeElement e) (writeElements rest)

/-- Writes an element with its name. -/
def writeElement : String × ElementSpec → Writer
  | (name, value) => seq (index (text name)) (write value)

end

end ElementSpec

/-- Writes an annotation. -/
def AnnotationSpec.write (a : AnnotationSpec) : Writer :=
  .seq (.index (PoolBuilder.text a.type))
    (.seq (.plain (Bytes.u2 a.elements.length))
      (ElementSpec.writeElements a.elements))

/-- The annotations of a parameter among those of all parameters. -/
def annotationsAt (annotations : List (Nat × AnnotationSpec)) (index : Nat) :
    List AnnotationSpec :=
  (annotations.filter fun (i, _) => i = index).map Prod.snd

/-- Writes an attribute; its contents enter the pool before its name. -/
def AttributeKind.write (kind : AttributeKind) (body : Writer) : Writer := do
  let contents ← body
  let name ← PoolBuilder.text kind.name
  return Bytes.u2 name ++ Bytes.u4 contents.length ++ contents

/-- The attribute for the annotations of one visibility, if there are any. -/
def annotationAttribute (annotations : List AnnotationSpec) (visible : Bool) :
    List Writer :=
  let chosen := annotations.filter fun a => a.visible = visible
  if chosen.isEmpty then
    []
  else
    [(AttributeKind.annotations visible).write
      (.counted (chosen.map AnnotationSpec.write))]

/-- The attribute for the annotations of parameters of one visibility. -/
def parameterAttribute (annotations : List (Nat × AnnotationSpec))
    (visible : Bool) : List Writer :=
  let chosen := annotations.filter fun (_, a) => a.visible = visible
  match (chosen.map fun (i, _) => i + 1).max? with
  | none => []
  | some count =>
      let lists := (List.range count).map fun i =>
        Writer.counted ((annotationsAt chosen i).map AnnotationSpec.write)
      [(AttributeKind.parameterAnnotations visible).write
        (.seq (.plain [UInt8.ofNat count]) (.all lists))]

/-- Writes a method. -/
def MethodSpec.write (m : MethodSpec) : Writer :=
  .all
    [.plain (Bytes.u2 m.access.bits.toNat), .index (PoolBuilder.text m.name),
      .index (PoolBuilder.text m.descriptor),
      .counted
        (annotationAttribute m.annotations true
          ++ annotationAttribute m.annotations false
          ++ parameterAttribute m.parameterAnnotations true
          ++ parameterAttribute m.parameterAnnotations false)]

/-- The attribute for the name of a source file. -/
def sourceAttribute (name : Option String) : List Writer :=
  name.toList.map fun s =>
    AttributeKind.sourceFile.write (.index (PoolBuilder.text s))

namespace ClassSpec

/-- Writes the superclass; index zero stands for none. -/
def writeSuperclass : Option String → Writer
  | none => .plain (Bytes.u2 0)
  | some name => .index (PoolBuilder.classRef name)

/-- Writes what follows the pool. -/
def writeBody (c : ClassSpec) : Writer :=
  .all
    [.plain (Bytes.u2 c.access.bits.toNat),
      .index (PoolBuilder.classRef c.name), writeSuperclass c.superclass,
      .counted (c.interfaces.map fun n => .index (PoolBuilder.classRef n)),
      .counted [], .counted (c.methods.map MethodSpec.write),
      .counted
        (annotationAttribute c.annotations true
          ++ annotationAttribute c.annotations false
          ++ sourceAttribute c.sourceFile)]

/-- The bytes of a class file. -/
def toBytes (c : ClassSpec) : List UInt8 :=
  let (body, pool) := (writeBody c).run .empty
  Bytes.u4 ClassFile.magic.toNat ++ Bytes.u2 c.minorVersion.toNat
    ++ Bytes.u2 c.majorVersion.toNat ++ pool.bytes ++ body

end ClassSpec
end NativeGlue
