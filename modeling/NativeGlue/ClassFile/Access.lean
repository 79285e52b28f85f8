/-!
# Access flags

The flags of classes and methods, as bits of a word. Bits without a name are
kept.
-/

namespace NativeGlue

/-- The bits of a word that have a name, with the names, lowest bit first. -/
def namedBits (names : List (Nat × String)) (bits : UInt16) : List String :=
  (names.filter fun (position, _) => bits.toNat.testBit position).map Prod.snd

/-- The flags of a class. -/
structure ClassAccess where
  bits : UInt16
deriving DecidableEq, Repr, Inhabited

namespace ClassAccess

/-- The names of the flags. -/
def names : List (Nat × String) :=
  [(0, "PUBLIC"), (4, "FINAL"), (5, "SUPER"), (9, "INTERFACE"),
    (10, "ABSTRACT"), (12, "SYNTHETIC"), (13, "ANNOTATION"), (14, "ENUM"),
    (15, "MODULE")]

/-- The names of the flags that are set. -/
def flags (a : ClassAccess) : List String := namedBits names a.bits

/-- Whether the class is an interface. -/
def isInterface (a : ClassAccess) : Bool := a.bits.toNat.testBit 9

/-- Whether the class describes a module. -/
def isModule (a : ClassAccess) : Bool := a.bits.toNat.testBit 15

end ClassAccess

/-- The flags of a method. -/
structure MethodAccess where
  bits : UInt16
deriving DecidableEq, Repr, Inhabited

namespace MethodAccess

/-- The names of the flags. -/
def names : List (Nat × String) :=
  [(0, "PUBLIC"), (1, "PRIVATE"), (2, "PROTECTED"), (3, "STATIC"),
    (4, "FINAL"), (5, "SYNCHRONIZED"), (6, "BRIDGE"), (7, "VARARGS"),
    (8, "NATIVE"), (10, "ABSTRACT"), (11, "STRICT"), (12, "SYNTHETIC")]

/-- The names of the flags that are set. -/
def flags (a : MethodAccess) : List String := namedBits names a.bits

/-- Whether the method is implemented in native code. -/
def isNative (a : MethodAccess) : Bool := a.bits.toNat.testBit 8

/-- Whether the method needs no object. -/
def isStatic (a : MethodAccess) : Bool := a.bits.toNat.testBit 3

/-- Whether the compiler made the method: synthetic, or a bridge. -/
def isGenerated (a : MethodAccess) : Bool :=
  a.bits.toNat.testBit 12 || a.bits.toNat.testBit 6

/-- The flags with that of native methods set. -/
def withNative (a : MethodAccess) : MethodAccess := ⟨a.bits ||| 0x0100⟩

end MethodAccess
end NativeGlue
