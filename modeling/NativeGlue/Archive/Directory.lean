import NativeGlue.Archive.Bytes

/-!
# Directories of archives

An archive has a directory of its members, and an end record behind it says
where. There may be other bytes in front of the archive, by which all offsets
are moved, so the directory is where its first entry is found. A directory
that is too large for an end record has a wide record in front of that, and a
locator between the two that leads to it.
-/

namespace NativeGlue

/-- Where a directory is. -/
structure ZipDirectory where
  /-- The number of bytes in front of the archive. -/
  front : Nat
  start : Nat
  /-- The number of entries. -/
  count : Nat
deriving DecidableEq, Repr, Inhabited

namespace ZipDirectory

open Bytes (number? hasMark offsetsBetween)

/-- The mark of an entry of the directory. -/
def entryMark : List UInt8 := [0x50, 0x4B, 1, 2]

/-- The least size of an entry. -/
def entrySize : Nat := 46

/-- The mark of an end record. -/
def endMark : List UInt8 := [0x50, 0x4B, 5, 6]

/-- The size of an end record without its comment. -/
def endSize : Nat := 22

/-- The mark of a wide record. -/
def wideMark : List UInt8 := [0x50, 0x4B, 6, 6]

/-- The mark of a locator. -/
def locatorMark : List UInt8 := [0x50, 0x4B, 6, 7]

/-- The size of a locator, which stands right before the end record. -/
def locatorSize : Nat := 20

/-- An end record; the directory is told from the start of the archive. -/
structure End where
  offset : Nat
  disk : Nat
  directoryDisk : Nat
  /-- The number of entries on this disk. -/
  count : Nat
  /-- The number of entries on all disks. -/
  total : Nat
  start : Nat
deriving DecidableEq, Repr, Inhabited

/-- Reads an end record, whose comment must be there as well. -/
def End.read? (bytes : List UInt8) (offset : Nat) : Option End := do
  let disk ← number? bytes (offset + 4) 2
  let directoryDisk ← number? bytes (offset + 6) 2
  let count ← number? bytes (offset + 8) 2
  let total ← number? bytes (offset + 10) 2
  let start ← number? bytes (offset + 16) 4
  let comment ← number? bytes (offset + 20) 2
  if bytes.length < offset + endSize + comment then
    none
  else
    return { offset, disk, directoryDisk, count, total, start }

/-- Whether an end record leaves something to a wide record. -/
def End.mayBeWide (e : End) : Bool :=
  e.total = 0xFFFF || e.start = 0xFFFFFFFF

/-- A locator: where the wide record is, from the start of the archive. -/
structure Locator where
  offset : Nat
  directoryDisk : Nat
  start : Nat
  disks : Nat
deriving DecidableEq, Repr, Inhabited

/-- Reads the locator of an end record, if there is one. -/
def Locator.read? (bytes : List UInt8) (e : End) : Option Locator := do
  let offset := e.offset - locatorSize
  if e.offset < locatorSize || !hasMark locatorMark bytes offset then
    none
  else
    let directoryDisk ← number? bytes (offset + 4) 4
    let start ← number? bytes (offset + 8) 8
    let disks ← number? bytes (offset + 16) 4
    return { offset, directoryDisk, start, disks }

/-- A wide record. -/
structure Wide where
  offset : Nat
  writtenBy : Nat
  needed : Nat
  disk : Nat
  directoryDisk : Nat
  count : Nat
  total : Nat
  start : Nat
deriving DecidableEq, Repr, Inhabited

/--
Reads a wide record. It must end at its locator, agree with that on the disk,
and leave room before it for all of its entries.
-/
def Wide.read? (bytes : List UInt8) (l : Locator) (offset : Nat) :
    Option Wide := do
  let size ← number? bytes (offset + 4) 8
  let writtenBy ← number? bytes (offset + 12) 2
  let needed ← number? bytes (offset + 14) 2
  let disk ← number? bytes (offset + 16) 4
  let directoryDisk ← number? bytes (offset + 20) 4
  let count ← number? bytes (offset + 24) 8
  let total ← number? bytes (offset + 32) 8
  let start ← number? bytes (offset + 48) 8
  if 44 ≤ size && offset + 12 + size = l.offset
      && directoryDisk = l.directoryDisk
      && start + total * entrySize ≤ offset then
    return { offset, writtenBy, needed, disk, directoryDisk, count, total, start }
  else
    none

/-- Whether a wide record is that of a whole archive that can be read. -/
def Wide.isUsable (w : Wide) : Bool :=
  w.count ≤ w.total && w.needed ≤ w.writtenBy && w.disk = w.directoryDisk

/-- The directory of a locator, by the first wide record from there on. -/
def ofLocator? (bytes : List UInt8) (l : Locator) : Option ZipDirectory := do
  if l.offset ≤ l.start || 1 < l.disks then
    none
  else
    let w ← (offsetsBetween wideMark bytes l.start l.offset).findSome?
      (Wide.read? bytes l)
    let front := w.offset - l.start
    if w.isUsable then
      return { front, start := w.start + front, count := w.total }
    else
      none

/-- The directory of an end record that leaves nothing to a wide one. -/
def ofEnd? (bytes : List UInt8) (e : End) : Option ZipDirectory := do
  if e.disk ≠ e.directoryDisk then
    none
  else if e.total = 0 then
    let front := e.offset - e.start
    return { front, start := e.start + front, count := e.count }
  else
    let start ← (offsetsBetween entryMark bytes e.start e.offset).head?
    return { front := start - e.start, start, count := e.count }

/-- The directory of the end record at an offset. -/
def read? (bytes : List UInt8) (offset : Nat) : Option ZipDirectory := do
  let e ← End.read? bytes offset
  match if e.mayBeWide then Locator.read? bytes e else none with
  | some l => ofLocator? bytes l
  | none => ofEnd? bytes e

end ZipDirectory
end NativeGlue
