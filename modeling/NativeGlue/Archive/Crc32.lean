/-!
# Cyclic redundancy check

The check of 32 bits by which archives tell that the bytes of a member are
whole. Bits are taken from the lowest up.
-/

namespace NativeGlue
namespace Crc32

/-- The generator polynomial, its bits reversed. -/
def polynomial : UInt32 := 0xEDB88320

/-- The remainder after one more bit. -/
def shift (crc : UInt32) : UInt32 :=
  if crc &&& 1 = 1 then (crc >>> 1) ^^^ polynomial else crc >>> 1

/-- The remainder after one more byte. -/
def update (crc : UInt32) (b : UInt8) : UInt32 :=
  (List.range 8).foldl (fun c _ => shift c) (crc ^^^ b.toUInt32)

/-- The check of a byte string. -/
def ofBytes (bytes : List UInt8) : UInt32 :=
  bytes.foldl update 0xFFFFFFFF ^^^ 0xFFFFFFFF

end Crc32
end NativeGlue
