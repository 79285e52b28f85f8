import NativeGlue.ClassFile.Cursor
import NativeGlue.ClassName
import NativeGlue.Text.ModifiedUtf8

/-!
# The constant pool

The constants of a class file, which the rest of the file refers to by index.
Indices start at one, and a constant of eight bytes takes two of them, the
second of which is not usable.
-/

namespace NativeGlue

/-- The kinds of constants. -/
inductive ConstantKind where
  | utf8
  | integer
  | float
  | long
  | double
  | classRef
  | string
  | fieldRef
  | methodRef
  | interfaceMethodRef
  | nameAndType
  | methodHandle
  | methodType
  | dynamic
  | invokeDynamic
  | module
  | package
deriving DecidableEq, Repr, Inhabited

namespace ConstantKind

/-- Every kind. -/
def all : List ConstantKind :=
  [utf8, integer, float, long, double, classRef, string, fieldRef, methodRef,
    interfaceMethodRef, nameAndType, methodHandle, methodType, dynamic,
    invokeDynamic, module, package]

/-- The byte that announces a constant of a kind. -/
def tag : ConstantKind → UInt8
  | utf8 => 1
  | integer => 3
  | float => 4
  | long => 5
  | double => 6
  | classRef => 7
  | string => 8
  | fieldRef => 9
  | methodRef => 10
  | interfaceMethodRef => 11
  | nameAndType => 12
  | methodHandle => 15
  | methodType => 16
  | dynamic => 17
  | invokeDynamic => 18
  | module => 19
  | package => 20

/-- The kind that a byte announces. -/
def ofTag? (b : UInt8) : Option ConstantKind :=
  all.find? fun kind => kind.tag = b

/-- The word for a kind in messages. -/
def name : ConstantKind → String
  | utf8 => "Utf8"
  | integer => "Integer"
  | float => "Float"
  | long => "Long"
  | double => "Double"
  | classRef => "Class"
  | string => "String"
  | fieldRef => "Fieldref"
  | methodRef => "Methodref"
  | interfaceMethodRef => "InterfaceMethodref"
  | nameAndType => "NameAndType"
  | methodHandle => "MethodHandle"
  | methodType => "MethodType"
  | dynamic => "Dynamic"
  | invokeDynamic => "InvokeDynamic"
  | module => "Module"
  | package => "Package"

/-- Whether a constant of the kind takes two indices. -/
def isWide (kind : ConstantKind) : Bool :=
  kind = long || kind = double

end ConstantKind

/-- A constant. Floating-point values are kept as their bits. -/
inductive Constant where
  | utf8 (text : String)
  | integer (value : Int32)
  | float (bits : UInt32)
  | long (value : Int64)
  | double (bits : UInt64)
  | classRef (name : UInt16)
  | string (text : UInt16)
  | fieldRef (owner nameAndType : UInt16)
  | methodRef (owner nameAndType : UInt16)
  | interfaceMethodRef (owner nameAndType : UInt16)
  | nameAndType (name descriptor : UInt16)
  | methodHandle (referenceKind : UInt8) (reference : UInt16)
  | methodType (descriptor : UInt16)
  | dynamic (bootstrap nameAndType : UInt16)
  | invokeDynamic (bootstrap nameAndType : UInt16)
  | module (name : UInt16)
  | package (name : UInt16)
deriving DecidableEq, Repr, Inhabited

namespace Constant

/-- The kind of a constant. -/
def kind : Constant → ConstantKind
  | utf8 _ => .utf8
  | integer _ => .integer
  | float _ => .float
  | long _ => .long
  | double _ => .double
  | classRef _ => .classRef
  | string _ => .string
  | fieldRef .. => .fieldRef
  | methodRef .. => .methodRef
  | interfaceMethodRef .. => .interfaceMethodRef
  | nameAndType .. => .nameAndType
  | methodHandle .. => .methodHandle
  | methodType _ => .methodType
  | dynamic .. => .dynamic
  | invokeDynamic .. => .invokeDynamic
  | module _ => .module
  | package _ => .package

/-- The numbers that a constant refers to others by, in file order. -/
def indices : Constant → List Nat
  | classRef i | string i | methodType i | module i | package i => [i.toNat]
  | fieldRef i j | methodRef i j | interfaceMethodRef i j | nameAndType i j
  | dynamic i j | invokeDynamic i j => [i.toNat, j.toNat]
  | methodHandle k i => [k.toNat, i.toNat]
  | _ => []

open NativeGlue.Parser

/-- Reads a text in modified UTF-8, preceded by its length. -/
def readUtf8 : Parser Constant := do
  let length ← u2
  let start ← position
  let encoded ← bytes length.toNat
  match Text.ModifiedUtf8.decode start encoded with
  | .ok text => return utf8 text
  | .error offset => fail (.badUtf8 offset)

/-- Reads what follows the tag of a constant. -/
def readBody : ConstantKind → Parser Constant
  | .utf8 => readUtf8
  | .integer => return integer (← u4).toInt32
  | .float => return float (← u4)
  | .long => return long (← u8).toInt64
  | .double => return double (← u8)
  | .classRef => return classRef (← u2)
  | .string => return string (← u2)
  | .fieldRef => return fieldRef (← u2) (← u2)
  | .methodRef => return methodRef (← u2) (← u2)
  | .interfaceMethodRef => return interfaceMethodRef (← u2) (← u2)
  | .nameAndType => return nameAndType (← u2) (← u2)
  | .methodHandle => return methodHandle (← u1) (← u2)
  | .methodType => return methodType (← u2)
  | .dynamic => return dynamic (← u2) (← u2)
  | .invokeDynamic => return invokeDynamic (← u2) (← u2)
  | .module => return module (← u2)
  | .package => return package (← u2)

/-- Reads a constant. -/
def read : Parser Constant := do
  let offset ← position
  let tag ← u1
  match ConstantKind.ofTag? tag with
  | some kind => readBody kind
  | none => fail (.unknownConstantTag tag offset)

end Constant

/-- The slots of a pool by index; a slot that is not usable holds nothing. -/
structure ConstantPool where
  slots : Array (Option Constant)
deriving DecidableEq, Repr, Inhabited

namespace ConstantPool

open NativeGlue.Parser

/--
Reads constants until `left` slots are filled. The last slot of a pool of
`count` slots cannot hold a constant that takes two.
-/
def readSlots (count : Nat) : Nat → Parser (List (Option Constant))
  | 0 => pure []
  | left + 1 => do
      let c ← Constant.read
      if c.kind.isWide then
        match left with
        | 0 => fail (.badConstantIndex count)
        | left + 1 => return some c :: none :: (← readSlots count left)
      else
        return some c :: (← readSlots count left)

/-- Reads a pool: the count of its slots, slot zero included, and constants. -/
def read : Parser ConstantPool := do
  let count ← u2
  let slots ← readSlots count.toNat (count.toNat - 1)
  return ⟨(none :: slots).toArray⟩

/-- Number of slots, slot zero included. -/
def size (p : ConstantPool) : Nat := p.slots.size

/-- Whether the pool has no constant. -/
def isEmpty (p : ConstantPool) : Bool := p.size ≤ 1

/-- The usable slots with their indices, in ascending order. -/
def entries (p : ConstantPool) : List (Nat × Constant) :=
  p.slots.toList.zipIdx.filterMap fun (slot, i) =>
    slot.map fun c => (i, c)

/-- The constant at an index. -/
def get (p : ConstantPool) (index : Nat) : Except FormatError Constant :=
  match p.slots[index]? with
  | some (some c) => .ok c
  | _ => .error (.badConstantIndex index)

/-- The fault of an index whose constant has another kind than it should. -/
def wrongKind {α : Type} (index : Nat) (expected : ConstantKind)
    (found : Constant) : Except FormatError α :=
  .error (.wrongConstantKind index expected.name found.kind.name)

/-- The text at an index. -/
def text (p : ConstantPool) (index : Nat) : Except FormatError String :=
  match p.get index with
  | .ok (.utf8 text) => .ok text
  | .ok other => wrongKind index .utf8 other
  | .error e => .error e

/-- The integer at an index. -/
def integer (p : ConstantPool) (index : Nat) : Except FormatError Int32 :=
  match p.get index with
  | .ok (.integer value) => .ok value
  | .ok other => wrongKind index .integer other
  | .error e => .error e

/-- The long integer at an index. -/
def long (p : ConstantPool) (index : Nat) : Except FormatError Int64 :=
  match p.get index with
  | .ok (.long value) => .ok value
  | .ok other => wrongKind index .long other
  | .error e => .error e

/-- The bits of the floating-point value of four bytes at an index. -/
def float (p : ConstantPool) (index : Nat) : Except FormatError UInt32 :=
  match p.get index with
  | .ok (.float bits) => .ok bits
  | .ok other => wrongKind index .float other
  | .error e => .error e

/-- The bits of the floating-point value of eight bytes at an index. -/
def double (p : ConstantPool) (index : Nat) : Except FormatError UInt64 :=
  match p.get index with
  | .ok (.double bits) => .ok bits
  | .ok other => wrongKind index .double other
  | .error e => .error e

/-- The name of the class at an index. -/
def className (p : ConstantPool) (index : Nat) :
    Except FormatError ClassName :=
  match p.get index with
  | .ok (.classRef name) =>
      match p.text name.toNat with
      | .ok text => .ok ⟨text⟩
      | .error e => .error e
  | .ok other => wrongKind index .classRef other
  | .error e => .error e

/-- The name of the class at an index, where zero stands for no class. -/
def className? (p : ConstantPool) (index : Nat) :
    Except FormatError (Option ClassName) :=
  if index = 0 then
    .ok none
  else
    match p.className index with
    | .ok name => .ok (some name)
    | .error e => .error e

end ConstantPool

namespace Parser

/-- Reads an index and looks it up. -/
def lookup {α : Type} (get : Nat → Except FormatError α) : Parser α := do
  let index ← u2
  match get index.toNat with
  | .ok x => return x
  | .error e => fail e

end Parser
end NativeGlue
