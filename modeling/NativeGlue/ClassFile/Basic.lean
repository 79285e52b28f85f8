import NativeGlue.ClassFile.Access
import NativeGlue.ClassFile.Attribute

/-!
# Class files

A class file, reduced to what binding needs: names, flags, super types,
methods and annotations. Fields are read for the sake of what follows them.
-/

namespace NativeGlue

/-- A method of a class. -/
structure MethodInfo where
  access : MethodAccess
  name : String
  /-- The descriptor as it stands in the file. -/
  descriptor : String
  annotations : List Annotation
  /-- The annotations of each parameter; trailing parameters may be missing. -/
  parameterAnnotations : List (List Annotation)
deriving Inhabited

/-- The first annotation of a type in a list. -/
def findAnnotation? (annotations : List Annotation) (type : ClassName) :
    Option Annotation :=
  annotations.find? fun a => a.hasType type

namespace MethodInfo

/-- The annotation of a given type. -/
def annotationOf? (m : MethodInfo) (type : ClassName) : Option Annotation :=
  findAnnotation? m.annotations type

/-- The annotation of a given type on a parameter. -/
def parameterAnnotationOf? (m : MethodInfo) (index : Nat) (type : ClassName) :
    Option Annotation :=
  m.parameterAnnotations[index]?.bind fun list => findAnnotation? list type

end MethodInfo

/-- A class file. -/
structure ClassFile where
  minorVersion : UInt16
  majorVersion : UInt16
  access : ClassAccess
  name : ClassName
  superclass : Option ClassName
  interfaces : List ClassName
  methods : List MethodInfo
  /-- Visible annotations, and after them the others. -/
  annotations : List Annotation
  sourceFile : Option String
deriving Inhabited

namespace ClassFile

/-- The number that every class file starts with. -/
def magic : UInt32 := 0xCAFEBABE

/-- The oldest and the newest major version that is read. -/
def majorVersions : Nat × Nat := (45, 69)

/-- Whether a major version is read. -/
def isSupported (major : UInt16) : Bool :=
  majorVersions.1 ≤ major.toNat && major.toNat ≤ majorVersions.2

open NativeGlue.Parser

/-- Reads the magic number and the version, minor before major. -/
def readVersion : Parser (UInt16 × UInt16) := do
  let found ← u4
  if found ≠ magic then
    fail (.badMagic found)
  else
    let minor ← u2
    let major ← u2
    if isSupported major then
      return (minor, major)
    else
      fail (.unsupportedVersion major minor)

/-- Passes over a field. -/
def skipField (pool : ConstantPool) : Parser Unit := do
  skip 6
  let _ ← Attribute.readAll pool

/-- Reads a method. -/
def readMethod (pool : ConstantPool) : Parser MethodInfo := do
  let access ← u2
  let name ← lookup pool.text
  let descriptor ← lookup pool.text
  let attributes ← Attribute.readAll pool
  return {
    access := ⟨access⟩
    name
    descriptor
    annotations := Attribute.allAnnotations attributes
    parameterAnnotations := Attribute.allParameters attributes }

/-- Reads a class. -/
def read : Parser ClassFile := do
  let (minorVersion, majorVersion) ← readVersion
  let pool ← ConstantPool.read
  let access ← u2
  let name ← lookup pool.className
  let superclass ← lookup pool.className?
  let interfaceCount ← u2
  let interfaces ← times (lookup pool.className) interfaceCount.toNat
  let fieldCount ← u2
  let _ ← times (skipField pool) fieldCount.toNat
  let methodCount ← u2
  let methods ← times (readMethod pool) methodCount.toNat
  let attributes ← Attribute.readAll pool
  return {
    minorVersion
    majorVersion
    access := ⟨access⟩
    name
    superclass
    interfaces
    methods
    annotations := Attribute.allAnnotations attributes
    sourceFile := Attribute.lastSourceFile? attributes }

/-- Reads a class file, after which no byte may follow. -/
def parse (input : List UInt8) : Except FormatError ClassFile :=
  match read (.ofBytes input) with
  | .error e => .error e
  | .ok (file, c) =>
      if c.isAtEnd then .ok file else .error (.trailingBytes c.remaining)

/-- The annotation of a given type. -/
def annotationOf? (f : ClassFile) (type : ClassName) : Option Annotation :=
  findAnnotation? f.annotations type

/-- Whether the file describes a module or a package, and no class. -/
def isDescriptor (f : ClassFile) : Bool :=
  f.access.isModule
    || ["module-info", "package-info"].contains f.name.simple

/-- The methods implemented in native code. -/
def nativeMethods (f : ClassFile) : List MethodInfo :=
  f.methods.filter fun m => m.access.isNative

end ClassFile
end NativeGlue
