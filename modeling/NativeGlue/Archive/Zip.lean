import NativeGlue.Archive.CodePage437
import NativeGlue.Archive.Directory
import NativeGlue.Archive.ExtraField
import NativeGlue.Archive.Inflate

/-!
# Zip archives

An archive is read by its directory. A member is stored or deflated, and its
bytes are held against the check in the directory. Of several end records the
last one counts whose directory can be read.
-/

namespace NativeGlue

/-- A member of an archive, as the directory lists it. -/
structure ZipMember where
  name : String
  /-- How the bytes are packed: 0 for stored, 8 for deflated. -/
  method : Nat
  encrypted : Bool
  check : UInt32
  packedSize : Nat
  /-- Where the member starts in the archive. -/
  start : Nat
deriving DecidableEq, Repr, Inhabited

/-- An archive: its bytes, and its members, each name once. -/
structure ZipArchive where
  bytes : List UInt8
  members : List ZipMember
deriving DecidableEq, Repr, Inhabited

namespace ZipArchive

open Bytes (number? hasMark)

/-- The mark before the bytes of a member. -/
def memberMark : List UInt8 := [0x50, 0x4B, 3, 4]

/-- The way of packing that a field about a cipher must tell more of. -/
def cipherMethod : Nat := 99

/-- A text in the character set that the flags of an entry tell. -/
def decodeText (utf8 : Bool) (bytes : List UInt8) : String :=
  if utf8 then Text.ofUtf8 bytes else CodePage437.decode bytes

/--
The member of an entry. There is none if the entry contradicts itself, or if
the member would not start before the directory.
-/
def memberOf? (d : ZipDirectory) (flags : Nat) (check : UInt32)
    (e : ZipEntry) : Option ZipMember :=
  if e.method = cipherMethod && !e.hasCipher then
    none
  else if d.start ≤ e.start + d.front then
    none
  else
    some
      { name := e.name
        method := e.method
        encrypted := flags.testBit 0 || e.hasCipher
        check
        packedSize := e.packedSize
        start := e.start + d.front }

/-- Reads an entry of a directory and gives the offset after it. -/
def readEntry? (bytes : List UInt8) (d : ZipDirectory) (offset : Nat) :
    Option (ZipMember × Nat) := do
  if !hasMark ZipDirectory.entryMark bytes offset then
    none
  else
    let flags ← number? bytes (offset + 8) 2
    let method ← number? bytes (offset + 10) 2
    let check ← number? bytes (offset + 16) 4
    let packedSize ← number? bytes (offset + 20) 4
    let size ← number? bytes (offset + 24) 4
    let nameSize ← number? bytes (offset + 28) 2
    let extraSize ← number? bytes (offset + 30) 2
    let commentSize ← number? bytes (offset + 32) 2
    let start ← number? bytes (offset + 42) 4
    let nameStart := offset + ZipDirectory.entrySize
    let next := nameStart + nameSize + extraSize + commentSize
    if bytes.length < next then
      none
    else
      let rest := bytes.drop nameStart
      let rawName := rest.take nameSize
      let extra := (rest.drop nameSize).take extraSize
      let comment := (rest.drop (nameSize + extraSize)).take commentSize
      let utf8 := flags.testBit 11
      let entry : ZipEntry :=
        { rawName
          name := decodeText utf8 rawName
          comment := decodeText utf8 comment
          method, hasCipher := false, size, packedSize, start }
      let entry ← entry.withExtra? extra
      let member ← memberOf? d flags (UInt32.ofNat check) entry
      return (member, next)

/-- Members with one more; a later one of the same name replaces an earlier. -/
def addMember (members : List ZipMember) (m : ZipMember) : List ZipMember :=
  if members.any fun n => n.name = m.name then
    members.map fun n => if n.name = m.name then m else n
  else
    members ++ [m]

/-- Reads a number of entries of a directory, from an offset on. -/
def readEntries? (bytes : List UInt8) (d : ZipDirectory) :
    Nat → Nat → List ZipMember → Option (List ZipMember)
  | 0, _, members => some members
  | n + 1, offset, members =>
      match readEntry? bytes d offset with
      | none => none
      | some (m, next) =>
          readEntries? bytes d n next (addMember members m)

/-- Reads an archive by the end record at an offset. -/
def readAt? (bytes : List UInt8) (offset : Nat) : Option ZipArchive := do
  let d ← ZipDirectory.read? bytes offset
  let members ← readEntries? bytes d d.count d.start []
  return ⟨bytes, members⟩

/-- Reads an archive. -/
def read? (bytes : List UInt8) : Option ZipArchive :=
  (Bytes.offsetsFromEnd ZipDirectory.endMark bytes).findSome? (readAt? bytes)

/-- The member of a given name. -/
def member? (a : ZipArchive) (name : String) : Option ZipMember :=
  a.members.find? fun m => m.name = name

/-- The offset of the packed bytes of a member, after its own header. -/
def dataStart? (bytes : List UInt8) (m : ZipMember) : Option Nat := do
  if !hasMark memberMark bytes m.start then
    none
  else
    let nameSize ← number? bytes (m.start + 26) 2
    let extraSize ← number? bytes (m.start + 28) 2
    return m.start + 30 + nameSize + extraSize

/-- The bytes of a member, if it is whole. -/
def contents? (a : ZipArchive) (m : ZipMember) : Option (List UInt8) := do
  if m.encrypted then
    none
  else
    let start ← dataStart? a.bytes m
    let packed := (a.bytes.drop start).take m.packedSize
    let contents ←
      match m.method with
      | 0 => some packed
      | 8 => Inflate.inflate? packed
      | _ => none
    if Crc32.ofBytes contents = m.check then some contents else none

end ZipArchive
end NativeGlue
