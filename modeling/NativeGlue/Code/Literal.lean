import NativeGlue.Text.Digits
import NativeGlue.Text.Utf16

/-!
# String literals

A C++ string literal whose bytes are a text in modified UTF-8, as native
interfaces expect names and signatures. Printable ASCII stands for itself;
the quote, the backslash and the question mark, which could open a trigraph,
are escaped; every other byte is an octal escape of three digits, which no
digit after it can extend.
-/

namespace NativeGlue
namespace Code

/-- A byte as an octal escape. -/
def octalEscape (b : UInt8) : List Char :=
  '\\' :: Text.digits 8 3 b.toNat

/-- A byte with a mark in front of some bits. -/
def markedByte (mark : UInt8) (bits : UInt16) : UInt8 :=
  mark ||| bits.toUInt8

/-- The bytes of one UTF-16 unit, put together from its bits. -/
def unitBytes (u : UInt16) : List UInt8 :=
  if 0x0001 ≤ u ∧ u ≤ 0x007F then
    [u.toUInt8]
  else if u ≤ 0x07FF then
    [markedByte 0xC0 (u >>> 6), markedByte 0x80 (u &&& 0x3F)]
  else
    [markedByte 0xE0 (u >>> 12), markedByte 0x80 ((u >>> 6) &&& 0x3F),
      markedByte 0x80 (u &&& 0x3F)]

/-- One UTF-16 unit inside a literal. -/
def literalUnit (u : UInt16) : List Char :=
  if u = 0x22 ∨ u = 0x5C ∨ u = 0x3F then
    ['\\', Char.ofNat u.toNat]
  else if 0x20 ≤ u.toNat ∧ u.toNat ≤ 0x7E then
    [Char.ofNat u.toNat]
  else
    (unitBytes u).flatMap octalEscape

/-- The literal for a text, quotes included. -/
def stringLiteral (text : String) : String :=
  String.ofList
    ('"' :: ((Text.units text.toList).flatMap literalUnit ++ ['"']))

end Code
end NativeGlue
