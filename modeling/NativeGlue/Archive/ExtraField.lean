import NativeGlue.Archive.Bytes
import NativeGlue.Archive.Crc32
import NativeGlue.Text.Basic

/-!
# Extra fields

An entry of a directory may end in fields, each with a kind and a size. Some
replace what the entry said: numbers that its own fields are too short for,
its name, or how its bytes are packed. Where the bytes end within a field,
what was read before counts; a field that contradicts itself makes the whole
directory unreadable.
-/

namespace NativeGlue

/-- What an entry of a directory says, as far as extra fields can change it. -/
structure ZipEntry where
  rawName : List UInt8
  name : String
  comment : String
  /-- How the bytes are packed: 0 for stored, 8 for deflated. -/
  method : Nat
  /-- Whether a field says how the bytes are encrypted. -/
  hasCipher : Bool
  size : Nat
  packedSize : Nat
  start : Nat
deriving DecidableEq, Repr, Inhabited

namespace ZipEntry

/-- What reading a field comes to. -/
inductive FieldResult where
  | next (entry : ZipEntry) (rest : List UInt8)
  /-- The bytes end within the field. -/
  | cut (entry : ZipEntry)
  | refused
deriving DecidableEq, Repr, Inhabited

/-- Passes over bytes. -/
def skip (size : Nat) (e : ZipEntry) (bytes : List UInt8) : FieldResult :=
  if bytes.length < size then .cut e else .next e (bytes.drop size)

/-- A number that stands for one in a field of eight bytes. -/
def wideMark : Nat := 0xFFFFFFFF

/-- The size of a field that has every number that it may have. -/
def fullSize : Nat := 24

/-- The numbers that a field of large numbers has for an entry, in order. -/
def wideNumbers (size : Nat) (e : ZipEntry) :
    List (Nat → ZipEntry → ZipEntry) :=
  let has (n : Nat) : Bool := fullSize ≤ size || n = wideMark
  (if has e.size then [fun n e => { e with size := n }] else [])
    ++ (if has e.packedSize then [fun n e => { e with packedSize := n }]
      else [])
    ++ (if has e.start then [fun n e => { e with start := n }] else [])

/-- Reads numbers of eight bytes. -/
def readNumbers :
    List (Nat → ZipEntry → ZipEntry) → ZipEntry → List UInt8 → FieldResult
  | [], e, bytes => .next e bytes
  | set :: sets, e, bytes =>
      match Bytes.number? bytes 0 8 with
      | none => .cut e
      | some n => readNumbers sets (set n e) (bytes.drop 8)

/-- Reads a field of large numbers. -/
def readWide (size : Nat) (e : ZipEntry) (bytes : List UInt8) : FieldResult :=
  let sets := wideNumbers size e
  match readNumbers sets e bytes with
  | .next e rest =>
      if size < 8 * sets.length then .refused
      else skip (size - 8 * sets.length) e rest
  | other => other

/-- Reads how bytes are encrypted, and how they were packed before that. -/
def readCipher (size : Nat) (e : ZipEntry) (bytes : List UInt8) :
    FieldResult :=
  if size ≠ 7 then
    .refused
  else
    match Bytes.number? bytes 0 2, Bytes.number? bytes 2 2,
        Bytes.number? bytes 4 1, Bytes.number? bytes 5 2 with
    | some version, some vendor, some strength, some method =>
        if vendor = 0x4541 && [1, 2].contains version
            && [1, 2, 3].contains strength then
          skip size { e with method, hasCipher := true } bytes
        else
          .refused
    | _, _, _, _ => .cut e

/-- Reads times in seconds; flags say which of three there are. -/
def readTimes (size : Nat) (e : ZipEntry) (bytes : List UInt8) : FieldResult :=
  match bytes with
  | [] => .cut e
  | flags :: _ =>
      let times := (List.range 8).countP flags.toNat.testBit
      if (size = 5 || size = 1 + 4 * times) && flags < 8 then
        skip size e bytes
      else
        .refused

/-- Reads times in fractions of seconds: one list of times, of a fixed size. -/
def readFineTimes (size : Nat) (e : ZipEntry) (bytes : List UInt8) :
    FieldResult :=
  if size ≠ 32 then
    .refused
  else
    match Bytes.number? bytes 4 2 with
    | none => .cut e
    | some tag =>
        if tag ≠ 1 then
          .refused
        else
          match Bytes.number? bytes 6 2 with
          | none => .cut e
          | some timesSize =>
              if timesSize ≠ 24 then .refused else skip size e bytes

/--
Reads a text that replaces another one. The field has the check of the text
that it replaces, so that it does not outlive a change of that.
-/
def readText (size : Nat) (old : List UInt8)
    (set : List UInt8 → String → ZipEntry) (e : ZipEntry)
    (bytes : List UInt8) : FieldResult :=
  match Bytes.number? bytes 1 4 with
  | none => .cut e
  | some check =>
      if size < 5 then
        .refused
      else if bytes.length < size then
        .cut e
      else
        let raw := (bytes.take size).drop 5
        match Text.ofUtf8? raw with
        | some text =>
            if (Crc32.ofBytes old).toNat = check then
              .next (set raw text) (bytes.drop size)
            else
              .refused
        | none => .refused

/-- Reads a field of a given kind; kinds without a meaning are passed over. -/
def readField (kind size : Nat) (e : ZipEntry) (bytes : List UInt8) :
    FieldResult :=
  match kind with
  | 0x0001 => readWide size e bytes
  | 0x000A => readFineTimes size e bytes
  | 0x5455 => readTimes size e bytes
  | 0x6375 =>
      readText size (Text.utf8 e.comment)
        (fun _ comment => { e with comment }) e bytes
  | 0x7075 =>
      readText size e.rawName
        (fun rawName name => { e with rawName, name }) e bytes
  | 0x9901 => readCipher size e bytes
  | _ => skip size e bytes

/-- Reads fields one after another. -/
def readFields : Nat → ZipEntry → List UInt8 → Option ZipEntry
  | 0, _, _ => none
  | _ + 1, e, [] => some e
  | fuel + 1, e, bytes =>
      match Bytes.number? bytes 0 2, Bytes.number? bytes 2 2 with
      | some kind, some size =>
          match readField kind size e (bytes.drop 4) with
          | .next e rest => readFields fuel e rest
          | .cut e => some e
          | .refused => none
      | _, _ => some e

/-- What an entry says with its extra fields. -/
def withExtra? (e : ZipEntry) (extra : List UInt8) : Option ZipEntry :=
  readFields (extra.length + 1) e extra

end ZipEntry
end NativeGlue
