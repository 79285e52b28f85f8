import NativeGlue.ClassFile.Error

/-!
# Reading bytes

A cursor stands in a byte string and knows its offset in the whole file. A
read takes bytes in front or fails and says what it needed; a window is a
cursor over the next bytes alone, while the cursor it came from moves past
them. Numbers are big-endian.
-/

namespace NativeGlue

/-- The bytes that are left, and the offset at which they stand. -/
structure Cursor where
  offset : Nat
  rest : List UInt8
deriving DecidableEq, Repr, Inhabited

/-- The first `n` elements of a list and the rest, if there are so many. -/
def splitExact {α : Type} : Nat → List α → Option (List α × List α)
  | 0, xs => some ([], xs)
  | _ + 1, [] => none
  | n + 1, x :: xs =>
      (splitExact n xs).map fun (front, back) => (x :: front, back)

/-- Exactly `n` elements are split off. -/
theorem splitExact_eq_some_iff {α : Type} {n : Nat}
    {xs front back : List α} :
    splitExact n xs = some (front, back)
      ↔ front.length = n ∧ xs = front ++ back := by
  induction n generalizing xs front with
  | zero =>
      simp only [splitExact, Option.some.injEq, Prod.mk.injEq,
        List.length_eq_zero_iff]
      grind
  | succ n ih =>
      cases xs with
      | nil =>
          cases front <;> simp [splitExact]
      | cons x xs =>
          simp only [splitExact, Option.map_eq_some_iff, Prod.exists,
            Prod.mk.injEq]
          constructor
          · rintro ⟨f, b, h, rfl, rfl⟩
            obtain ⟨hl, rfl⟩ := ih.1 h
            simp [hl]
          · rintro ⟨hl, hx⟩
            cases front with
            | nil => simp at hl
            | cons y ys =>
                simp only [List.cons_append, List.cons.injEq] at hx
                exact ⟨ys, back,
                  ih.2 ⟨by simpa using hl, hx.2⟩, by rw [hx.1], rfl⟩

/-- A step that reads from a cursor and moves it, or fails. -/
abbrev Parser := StateT Cursor (Except FormatError)

namespace Cursor

/-- A cursor at the start of a byte string. -/
def ofBytes (bytes : List UInt8) : Cursor := ⟨0, bytes⟩

/-- Number of bytes that are left. -/
def remaining (c : Cursor) : Nat := c.rest.length

/-- Whether no byte is left. -/
def isAtEnd (c : Cursor) : Bool := c.rest.isEmpty

/-- The number that big-endian bytes stand for. -/
def bigEndian (bytes : List UInt8) : Nat :=
  bytes.foldl (fun n b => n * 256 + b.toNat) 0

end Cursor

namespace Parser

/-- Fails with a fault. -/
def fail {α : Type} (e : FormatError) : Parser α :=
  fun _ => .error e

/-- The offset at which the cursor stands. -/
def position : Parser Nat :=
  fun c => .ok (c.offset, c)

/-- Takes exactly `n` bytes. -/
def bytes (n : Nat) : Parser (List UInt8) := fun c =>
  match splitExact n c.rest with
  | some (front, back) => .ok (front, ⟨c.offset + n, back⟩)
  | none => .error (.truncated c.offset n)

/-- Reads a number of one byte. -/
def u1 : Parser UInt8 :=
  return UInt8.ofNat (Cursor.bigEndian (← bytes 1))

/-- Reads a number of two bytes. -/
def u2 : Parser UInt16 :=
  return UInt16.ofNat (Cursor.bigEndian (← bytes 2))

/-- Reads a number of four bytes. -/
def u4 : Parser UInt32 :=
  return UInt32.ofNat (Cursor.bigEndian (← bytes 4))

/-- Reads a number of eight bytes. -/
def u8 : Parser UInt64 :=
  return UInt64.ofNat (Cursor.bigEndian (← bytes 8))

/-- Passes over `n` bytes. -/
def skip (n : Nat) : Parser Unit :=
  return (fun _ => ()) (← bytes n)

/-- Splits off the next `n` bytes as a cursor of their own. -/
def window (n : Nat) : Parser Cursor := do
  let offset ← position
  return ⟨offset, ← bytes n⟩

/-- Runs a parser `n` times. -/
def times {α : Type} (p : Parser α) : Nat → Parser (List α)
  | 0 => pure []
  | n + 1 => do
      let x ← p
      let xs ← times p n
      return x :: xs

end Parser

namespace Cursor

/-- One operation on a stack of cursors. -/
inductive Step where
  | u1
  | u2
  | u4
  | u8
  | bytes (n : Nat)
  | skip (n : Nat)
  /-- Pushes a window of `n` bytes. -/
  | window (n : Nat)
  /-- Drops the top, unless it is the only cursor. -/
  | pop
deriving DecidableEq, Repr

/-- What an operation reads. -/
inductive Value where
  | number (n : Nat)
  | word (w : UInt64)
  | bytes (bs : List UInt8)
  | nothing
deriving DecidableEq, Repr

/-- A stack of cursors: the top, and those below it. -/
structure Stack where
  top : Cursor
  below : List Cursor
deriving DecidableEq, Repr

namespace Stack

/-- The stack over a byte string. -/
def ofBytes (input : List UInt8) : Stack := ⟨Cursor.ofBytes input, []⟩

/-- Reads at the top. -/
def read {α : Type} (s : Stack) (p : Parser α) (value : α → Value) :
    Except FormatError (Value × Stack) :=
  match p s.top with
  | .ok (x, top) => .ok (value x, { s with top })
  | .error e => .error e

/-- Carries out one operation; one that fails leaves the stack as it was. -/
def step (s : Stack) : Step → Except FormatError (Value × Stack)
  | .u1 => s.read Parser.u1 fun x => .number x.toNat
  | .u2 => s.read Parser.u2 fun x => .number x.toNat
  | .u4 => s.read Parser.u4 fun x => .number x.toNat
  | .u8 => s.read Parser.u8 .word
  | .bytes n => s.read (Parser.bytes n) .bytes
  | .skip n => s.read (Parser.skip n) fun _ => .nothing
  | .window n =>
      match Parser.window n s.top with
      | .ok (inner, outer) => .ok (.nothing, ⟨inner, outer :: s.below⟩)
      | .error e => .error e
  | .pop =>
      match s.below with
      | [] => .ok (.nothing, s)
      | outer :: below => .ok (.nothing, ⟨outer, below⟩)

end Stack
end Cursor
end NativeGlue
