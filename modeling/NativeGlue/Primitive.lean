/-!
# Primitive types

The value types of the virtual machine, and `void`, which stands only for the
absence of a result. Each has a descriptor code of one letter and a width in
bytes on the native side.
-/

namespace NativeGlue

/-- A primitive type, or `void`. -/
inductive Primitive where
  | void
  | boolean
  | byte
  | char
  | short
  | int
  | long
  | float
  | double
deriving DecidableEq, Repr, Inhabited

namespace Primitive

/-- Every primitive type. -/
def all : List Primitive :=
  [void, boolean, byte, char, short, int, long, float, double]

/-- The letter that stands for the type in a descriptor. -/
def code : Primitive → Char
  | void => 'V'
  | boolean => 'Z'
  | byte => 'B'
  | char => 'C'
  | short => 'S'
  | int => 'I'
  | long => 'J'
  | float => 'F'
  | double => 'D'

/-- The type with a given letter. -/
def ofCode? (c : Char) : Option Primitive :=
  all.find? fun kind => kind.code = c

/-- The keyword for the type in Java source. -/
def name : Primitive → String
  | void => "void"
  | boolean => "boolean"
  | byte => "byte"
  | char => "char"
  | short => "short"
  | int => "int"
  | long => "long"
  | float => "float"
  | double => "double"

/-- The type with a given keyword. -/
def ofName? (s : String) : Option Primitive :=
  all.find? fun kind => kind.name = s

/-- Bytes that a value takes on the native side; `void` takes none. -/
def byteWidth : Primitive → Nat
  | void => 0
  | boolean | byte => 1
  | char | short => 2
  | int | float => 4
  | long | double => 8

/-- Whether the type is `void`. -/
def isVoid (kind : Primitive) : Bool :=
  kind = void

/-- A letter is read back as the type that it was written for. -/
@[simp] theorem ofCode?_code (kind : Primitive) :
    ofCode? kind.code = some kind := by
  cases kind <;> rfl

/-- Only its own letter is read as a type. -/
theorem ofCode?_eq_some {c : Char} {kind : Primitive}
    (h : ofCode? c = some kind) : kind.code = c := by
  simpa using List.find?_some h

end Primitive
end NativeGlue
