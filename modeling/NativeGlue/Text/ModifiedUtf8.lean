import NativeGlue.Text.Utf16

/-!
# Modified UTF-8

The encoding of text in class files. Each UTF-16 unit is written on its own as
a group of one, two or three bytes; the unit zero takes two bytes, so that no
byte of an encoded text is zero, and a character outside the basic plane is
the two groups of its surrogate pair.
-/

namespace NativeGlue
namespace Text
namespace ModifiedUtf8

/-- The group of bytes that stands for one UTF-16 unit. -/
def encodeUnit (u : UInt16) : List UInt8 :=
  let n := u.toNat
  if n ≠ 0 ∧ n < 0x80 then
    [UInt8.ofNat n]
  else if n < 0x800 then
    [UInt8.ofNat (0xC0 + n / 64), UInt8.ofNat (0x80 + n % 64)]
  else
    [UInt8.ofNat (0xE0 + n / 4096), UInt8.ofNat (0x80 + n / 64 % 64),
      UInt8.ofNat (0x80 + n % 64)]

/-- A text in modified UTF-8. -/
def encode (text : String) : List UInt8 :=
  (units text.toList).flatMap encodeUnit

/-- A byte that continues a group. -/
def isContinuation (b : UInt8) : Bool :=
  0x80 ≤ b.toNat && b.toNat < 0xC0

/-- The first group of a byte string as a unit, with the bytes after it. -/
def readGroup? : List UInt8 → Option (UInt16 × List UInt8)
  | [] => none
  | a :: rest =>
      let n := a.toNat
      if n ≠ 0 ∧ n < 0x80 then
        some (UInt16.ofNat n, rest)
      else if 0xC0 ≤ n ∧ n < 0xE0 then
        match rest with
        | b :: rest =>
            if isContinuation b then
              some (UInt16.ofNat ((n - 0xC0) * 64 + (b.toNat - 0x80)), rest)
            else
              none
        | [] => none
      else if 0xE0 ≤ n ∧ n < 0xF0 then
        match rest with
        | b :: c :: rest =>
            if isContinuation b && isContinuation c then
              some
                (UInt16.ofNat
                  ((n - 0xE0) * 4096 + (b.toNat - 0x80) * 64
                    + (c.toNat - 0x80)), rest)
            else
              none
        | _ => none
      else
        none

/-- A group takes at least one byte. -/
theorem length_lt_of_readGroup? {bytes rest : List UInt8} {u : UInt16}
    (h : readGroup? bytes = some (u, rest)) :
    rest.length < bytes.length := by
  unfold readGroup? at h
  grind

/--
The units of a byte string that is a sequence of groups. Otherwise the error
has the bytes that are left where no group can be read.
-/
def readUnits (bytes : List UInt8) : Except (List UInt8) (List UInt16) :=
  match bytes with
  | [] => .ok []
  | b :: bs =>
      match h : readGroup? (b :: bs) with
      | none => .error (b :: bs)
      | some (u, rest) =>
          have := length_lt_of_readGroup? h
          match readUnits rest with
          | .ok us => .ok (u :: us)
          | .error left => .error left
termination_by bytes.length
decreasing_by exact this

/--
Decodes groups, the first of which stands at offset `start`. The error is an
offset: that of the first byte at which no group can be read, or `start` when
the groups are sound but hold a surrogate without its partner.
-/
def decodeGroups (start : Nat) (bytes : List UInt8) : Except Nat String :=
  match readUnits bytes with
  | .error left => .error (start + (bytes.length - left.length))
  | .ok us =>
      match ofUnits? us with
      | some cs => .ok (String.ofList cs)
      | none => .error start

/-- A byte that is a group by itself and stands for the character it is. -/
def isPlainByte (b : UInt8) : Bool :=
  b.toNat ≠ 0 && b.toNat < 0x80

/--
Decodes a byte string whose first byte stands at offset `start`. Where every
byte is plain, the text is taken over without looking for groups.
-/
def decode (start : Nat) (bytes : List UInt8) : Except Nat String :=
  if bytes.all isPlainByte then
    .ok (String.ofList (bytes.map fun b => Char.ofNat b.toNat))
  else
    decodeGroups start bytes

end ModifiedUtf8
end Text
end NativeGlue
