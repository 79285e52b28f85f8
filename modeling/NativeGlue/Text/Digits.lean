/-!
# Digits of a fixed width

Hexadecimal and octal numerals with a fixed number of digits, as escapes and
hash values are written.
-/

namespace NativeGlue
namespace Text

/-- The lower-case digit of a number below sixteen. -/
def digit (n : Nat) : Char :=
  if n < 10 then Char.ofNat (48 + n) else Char.ofNat (87 + n)

/--
The last `width` digits of a number in a base up to sixteen, most significant
digit first.
-/
def digits (base : Nat) : Nat → Nat → List Char
  | 0, _ => []
  | width + 1, n => digits base width (n / base) ++ [digit (n % base)]

/-- A numeral has as many digits as its width. -/
@[simp] theorem length_digits (base width n : Nat) :
    (digits base width n).length = width := by
  induction width generalizing n with
  | zero => rfl
  | succ w ih => simp [digits, ih]

/-- A number as a hexadecimal numeral of a fixed width. -/
def hex (width n : Nat) : String :=
  String.ofList (digits 16 width n)

end Text
end NativeGlue
