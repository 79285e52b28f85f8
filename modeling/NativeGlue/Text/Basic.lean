/-!
# Text as characters

Names, descriptors and literals are handled as lists of characters, with a
`String` at each end. This module holds what several of them share: the size
of a text in UTF-8 bytes, in which offsets are counted, the text that bytes in
UTF-8 are, and the division of a text into fields at a separator.
-/

namespace NativeGlue
namespace Text

/-- Number of UTF-8 bytes that a list of characters takes. -/
def byteLength : List Char → Nat
  | [] => 0
  | c :: cs => c.utf8Size + byteLength cs

@[simp] theorem byteLength_nil : byteLength [] = 0 := rfl

@[simp] theorem byteLength_cons (c : Char) (cs : List Char) :
    byteLength (c :: cs) = c.utf8Size + byteLength cs := rfl

/-- Sizes add up under concatenation. -/
@[simp] theorem byteLength_append (xs ys : List Char) :
    byteLength (xs ++ ys) = byteLength xs + byteLength ys := by
  induction xs with
  | nil => simp
  | cons c cs ih => simp [ih, Nat.add_assoc]

/-- The UTF-8 bytes of a text. -/
def utf8 (s : String) : List UInt8 :=
  s.toList.flatMap String.utf8EncodeChar

/-- The text that some bytes are in UTF-8, if they are. -/
def ofUtf8? (bytes : List UInt8) : Option String :=
  String.fromUTF8? ⟨bytes.toArray⟩

/--
How many bytes may follow the first byte of a character in UTF-8, and the range
that the first of them is in: the ranges leave out what has a shorter form,
surrogates, and numbers that are too large. The others are in `80` to `BF`.
-/
def following? (first : UInt8) : Option (Nat × UInt8 × UInt8) :=
  if first < 0x80 then some (0, 0x80, 0xBF)
  else if first < 0xC2 then none
  else if first < 0xE0 then some (1, 0x80, 0xBF)
  else if first = 0xE0 then some (2, 0xA0, 0xBF)
  else if first = 0xED then some (2, 0x80, 0x9F)
  else if first < 0xF0 then some (2, 0x80, 0xBF)
  else if first = 0xF0 then some (3, 0x90, 0xBF)
  else if first < 0xF4 then some (3, 0x80, 0xBF)
  else if first = 0xF4 then some (3, 0x80, 0x8F)
  else none

/-- How many of the first bytes continue a character, at most `count`. -/
def continuing (low high : UInt8) : Nat → List UInt8 → Nat
  | 0, _ => 0
  | _ + 1, [] => 0
  | count + 1, b :: bs =>
      if low ≤ b && b ≤ high then 1 + continuing 0x80 0xBF count bs else 0

/-- The character that stands for bytes that are none. -/
def replacement : Char := '\uFFFD'

/--
The characters of bytes in UTF-8, at most `fuel` of them. Bytes that start a
character but do not end it are replaced together.
-/
def decodeUpTo : Nat → List UInt8 → List Char
  | 0, _ => []
  | _ + 1, [] => []
  | fuel + 1, b :: bs =>
      match following? b with
      | none => replacement :: decodeUpTo fuel bs
      | some (count, low, high) =>
          let size := continuing low high count bs
          let text := (ofUtf8? (b :: bs.take size)).elim [] String.toList
          (if size = count then text else [replacement])
            ++ decodeUpTo fuel (bs.drop size)

/-- The text that some bytes are in UTF-8, where what is none is replaced. -/
def ofUtf8 (bytes : List UInt8) : String :=
  String.ofList (decodeUpTo bytes.length bytes)

/-- Whether a text ends in another one. -/
def hasEnding (ending s : String) : Bool :=
  ending.toList.isSuffixOf s.toList

/--
The fields of a text between the occurrences of a separator. There is always
one more field than there are separators.
-/
def fields (sep : Char) : List Char → List (List Char)
  | [] => [[]]
  | c :: cs =>
      if c = sep then
        [] :: fields sep cs
      else
        match fields sep cs with
        | [] => [[c]]
        | f :: fs => (c :: f) :: fs

/-- Every occurrence of one character replaced by another. -/
def replaceChar (old new : Char) (s : String) : String :=
  String.ofList (s.toList.map fun c => if c = old then new else c)

/-- Whether a text comes no later than another in the order of code points. -/
def leChars : List Char → List Char → Bool
  | [], _ => true
  | _ :: _, [] => false
  | a :: as, b :: bs =>
      decide (a.toNat < b.toNat) || (decide (a = b) && leChars as bs)

/-- The order of texts: by code points. -/
def le (a b : String) : Bool :=
  leChars a.toList b.toList

/-- The text before the last occurrence of a separator, and the text after it. -/
def splitLast? (sep : Char) : List Char → Option (List Char × List Char)
  | [] => none
  | c :: cs =>
      match splitLast? sep cs with
      | some (front, back) => some (c :: front, back)
      | none => if c = sep then some ([], cs) else none

/-- The text before the first occurrence of a separator, and the text after it. -/
def splitFirst? (sep : Char) : List Char → Option (List Char × List Char)
  | [] => none
  | c :: cs =>
      if c = sep then
        some ([], cs)
      else
        (splitFirst? sep cs).map fun (front, back) => (c :: front, back)

end Text
end NativeGlue
