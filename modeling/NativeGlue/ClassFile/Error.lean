import NativeGlue.Text.Digits

/-!
# Faults of class files

What can be wrong with the bytes of a class file. Offsets count from the start
of the file.
-/

namespace NativeGlue

/-- A class file that is not well formed. -/
inductive FormatError where
  | badMagic (found : UInt32)
  | unsupportedVersion (major minor : UInt16)
  /-- The bytes end inside a structure. -/
  | truncated (offset needed : Nat)
  | unknownConstantTag (tag : UInt8) (offset : Nat)
  /-- An index that no usable constant has. -/
  | badConstantIndex (index : Nat)
  | wrongConstantKind (index : Nat) (expected found : String)
  | badUtf8 (offset : Nat)
  | unknownElementTag (tag : Char) (offset : Nat)
  | nestingTooDeep (limit offset : Nat)
  /-- An attribute is longer than its contents. -/
  | attributeLength (name : String) (declared actual : Nat)
  /-- Bytes follow the class. -/
  | trailingBytes (remaining : Nat)
deriving DecidableEq, Repr, Inhabited

namespace FormatError

/-- The wording of a fault. -/
def message : FormatError → String
  | badMagic found => "bad magic number 0x" ++ Text.hex 8 found.toNat
  | unsupportedVersion major minor =>
      "unsupported class-file version " ++ toString major.toNat ++ "."
        ++ toString minor.toNat
  | truncated offset needed =>
      "truncated class file: needed " ++ toString needed
        ++ " bytes at offset " ++ toString offset
  | unknownConstantTag tag offset =>
      "unknown constant-pool tag " ++ toString tag.toNat ++ " at offset "
        ++ toString offset
  | badConstantIndex index =>
      "invalid constant-pool index " ++ toString index
  | wrongConstantKind index expected found =>
      "constant-pool entry " ++ toString index ++ " is " ++ found
        ++ ", expected " ++ expected
  | badUtf8 offset =>
      "malformed modified UTF-8 at offset " ++ toString offset
  | unknownElementTag tag offset =>
      "unknown annotation element tag '" ++ tag.toString ++ "' at offset "
        ++ toString offset
  | nestingTooDeep limit offset =>
      "annotation element values nested deeper than " ++ toString limit
        ++ " at offset " ++ toString offset
  | attributeLength name declared actual =>
      "attribute '" ++ name ++ "' declares " ++ toString declared
        ++ " bytes but its contents use " ++ toString actual
  | trailingBytes remaining =>
      toString remaining ++ " trailing bytes after class structure"

end FormatError
end NativeGlue
