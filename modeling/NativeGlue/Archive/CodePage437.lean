/-!
# Code page 437

The character set of names in archives that do not say otherwise. Bytes below
128 stand for ASCII characters.
-/

namespace NativeGlue
namespace CodePage437

/-- The characters of the bytes from 128 on. -/
def upperHalf : String :=
  "ÇüéâäàåçêëèïîìÄÅ"
    ++ "ÉæÆôöòûùÿÖÜ¢£¥₧ƒ"
    ++ "áíóúñÑªº¿⌐¬½¼¡«»"
    ++ "░▒▓│┤╡╢╖╕╣║╗╝╜╛┐"
    ++ "└┴┬├─┼╞╟╚╔╩╦╠═╬╧"
    ++ "╨╤╥╙╘╒╓╫╪┘┌█▄▌▐▀"
    ++ "αßΓπΣσµτΦΘΩδ∞φε∩"
    ++ "≡±≥≤⌠⌡÷≈°∙·√ⁿ²■ "

/-- The character of a byte. -/
def char (b : UInt8) : Char :=
  if b < 128 then Char.ofNat b.toNat
  else upperHalf.toList.getD (b.toNat - 128) ' '

/-- The text of bytes. -/
def decode (bytes : List UInt8) : String :=
  String.ofList (bytes.map char)

end CodePage437
end NativeGlue
