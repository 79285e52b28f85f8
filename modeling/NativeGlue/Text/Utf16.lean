/-!
# UTF-16 units

A character is one unit, or a surrogate pair when it lies outside the basic
plane. `units` writes a text as units and `ofUnits?` reads it back, refusing a
surrogate without its partner.
-/

namespace NativeGlue
namespace Text

/-- The UTF-16 units of one character. -/
def charUnits (c : Char) : List UInt16 :=
  let n := c.toNat
  if n < 0x10000 then
    [UInt16.ofNat n]
  else
    [UInt16.ofNat (0xD800 + (n - 0x10000) / 0x400),
      UInt16.ofNat (0xDC00 + (n - 0x10000) % 0x400)]

/-- The UTF-16 units of a text. -/
def units (cs : List Char) : List UInt16 :=
  cs.flatMap charUnits

/-- A unit that opens a surrogate pair. -/
def isHighSurrogate (u : UInt16) : Bool :=
  0xD800 ≤ u.toNat && u.toNat < 0xDC00

/-- A unit that closes a surrogate pair. -/
def isLowSurrogate (u : UInt16) : Bool :=
  0xDC00 ≤ u.toNat && u.toNat < 0xE000

/-- The character that a surrogate pair stands for. -/
def pairChar (high low : UInt16) : Char :=
  Char.ofNat
    (0x10000 + (high.toNat - 0xD800) * 0x400 + (low.toNat - 0xDC00))

/-- Reads units as text; a surrogate that is not half of a pair is refused. -/
def ofUnits? : List UInt16 → Option (List Char)
  | [] => some []
  | [u] =>
      if isHighSurrogate u || isLowSurrogate u then
        none
      else
        some [Char.ofNat u.toNat]
  | u :: v :: us =>
      if isHighSurrogate u then
        if isLowSurrogate v then
          (ofUnits? us).map (pairChar u v :: ·)
        else
          none
      else if isLowSurrogate u then
        none
      else
        (ofUnits? (v :: us)).map (Char.ofNat u.toNat :: ·)

end Text
end NativeGlue
