/-!
# Records in bytes

Archives are made of records. A record starts with a mark of four bytes, and
its numbers stand at fixed offsets, their lowest byte first.
-/

namespace NativeGlue
namespace Bytes

/-- The number in little-endian bytes. -/
def littleEndian : List UInt8 → Nat
  | [] => 0
  | b :: bs => b.toNat + 256 * littleEndian bs

/-- The number in `size` bytes at an offset, if they are there. -/
def number? (bytes : List UInt8) (offset size : Nat) : Option Nat :=
  let field := (bytes.drop offset).take size
  if field.length = size then some (littleEndian field) else none

/-- Whether a mark stands at an offset. -/
def hasMark (mark bytes : List UInt8) (offset : Nat) : Bool :=
  mark.isPrefixOf (bytes.drop offset)

/-- Adds the offsets at which a mark stands to those found before them. -/
def addOffsets (mark : List UInt8) (found : List Nat) (offset : Nat) :
    List UInt8 → List Nat
  | [] => found
  | b :: bs =>
      addOffsets mark
        (if mark.isPrefixOf (b :: bs) then offset :: found else found)
        (offset + 1) bs

/-- The offsets at which a mark stands, from the last to the first. -/
def offsetsFromEnd (mark bytes : List UInt8) : List Nat :=
  addOffsets mark [] 0 bytes

/-- The offsets from `start` on at which a mark stands that ends by `finish`. -/
def offsetsBetween (mark bytes : List UInt8) (start finish : Nat) :
    List Nat :=
  (addOffsets mark [] start ((bytes.take finish).drop start)).reverse

end Bytes
end NativeGlue
