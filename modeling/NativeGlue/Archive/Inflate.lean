/-!
# Deflated data

**Input.** A sequence of bits, from the lowest bit of each byte up. The data
comes in blocks, either stored as they are or as symbols in a prefix code; a
symbol is a byte, a copy of earlier output, or the end of the block.

**Result.** The bytes that the data stands for, or nothing if it is damaged.
-/

namespace NativeGlue
namespace Inflate

/-- The bits of bytes, from the lowest up. -/
def bitsOf (bytes : List UInt8) : List Bool :=
  bytes.flatMap fun b => (List.range 8).map fun i => b.toNat.testBit i

/-- The number in the next `n` bits, lowest first, and the bits after them. -/
def take? : Nat → List Bool → Option (Nat × List Bool)
  | 0, bits => some (0, bits)
  | _ + 1, [] => none
  | n + 1, b :: bits =>
      match take? n bits with
      | none => none
      | some (high, rest) => some (b.toNat + 2 * high, rest)

/--
A canonical prefix code: how many symbols have codes of each length from one
up, and the symbols by length and value.
-/
structure Code where
  counts : List Nat
  symbols : Array Nat

namespace Code

/-- The longest code. -/
def maxLength : Nat := 15

/-- The code in which symbols have given lengths; zero is for symbols unused. -/
def ofLengths (lengths : List Nat) : Code where
  counts := (List.range maxLength).map fun l => lengths.count (l + 1)
  symbols :=
    ((List.range maxLength).flatMap fun l =>
      (lengths.zipIdx.filter fun (n, _) => n = l + 1).map Prod.snd).toArray

/-- The share of all codes of full length that is in use. -/
def used : Nat → List Nat → Nat
  | _, [] => 0
  | weight, n :: rest => n * weight + used (weight / 2) rest

/-- Whether the lengths fill the code exactly. -/
def isComplete (c : Code) : Bool :=
  used 16384 c.counts = 32768

/-- Whether a code is complete, or has one symbol of one bit, or none. -/
def isSound (c : Code) : Bool :=
  c.isComplete || c.symbols.isEmpty
    || (c.symbols.size = 1 && c.counts.head? = some 1)

/-- Reads a symbol: `first` is the first code of the length at hand. -/
def readFrom (c : Code) (value first index : Nat) :
    List Nat → List Bool → Option (Nat × List Bool)
  | [], _ => none
  | _ :: _, [] => none
  | count :: counts, b :: bits =>
      let value := 2 * value + b.toNat
      if value < first + count then
        (c.symbols[index + (value - first)]?).map fun s => (s, bits)
      else
        readFrom c value (2 * (first + count)) (index + count) counts bits

/-- Reads a symbol. -/
def read (c : Code) (bits : List Bool) : Option (Nat × List Bool) :=
  c.readFrom 0 0 0 c.counts bits

/-- The code of bytes and lengths that blocks share. -/
def fixedLiterals : Code :=
  ofLengths
    (List.replicate 144 8 ++ List.replicate 112 9 ++ List.replicate 24 7
      ++ List.replicate 8 8)

/-- The code of distances that blocks share. -/
def fixedDistances : Code :=
  ofLengths (List.replicate 30 5)

end Code

/-- The least value of each symbol for a length, and its extra bits. -/
def lengthTable : List (Nat × Nat) :=
  [(3, 0), (4, 0), (5, 0), (6, 0), (7, 0), (8, 0), (9, 0), (10, 0), (11, 1),
    (13, 1), (15, 1), (17, 1), (19, 2), (23, 2), (27, 2), (31, 2), (35, 3),
    (43, 3), (51, 3), (59, 3), (67, 4), (83, 4), (99, 4), (115, 4), (131, 5),
    (163, 5), (195, 5), (227, 5), (258, 0)]

/-- The least value of each symbol for a distance, and its extra bits. -/
def distanceTable : List (Nat × Nat) :=
  [(1, 0), (2, 0), (3, 0), (4, 0), (5, 1), (7, 1), (9, 2), (13, 2), (17, 3),
    (25, 3), (33, 4), (49, 4), (65, 5), (97, 5), (129, 6), (193, 6), (257, 7),
    (385, 7), (513, 8), (769, 8), (1025, 9), (1537, 9), (2049, 10),
    (3073, 10), (4097, 11), (6145, 11), (8193, 12), (12289, 12), (16385, 13),
    (24577, 13)]

/-- Reads the extra bits of a symbol and gives its value. -/
def readValue (table : List (Nat × Nat)) (symbol : Nat) (bits : List Bool) :
    Option (Nat × List Bool) :=
  match table[symbol]? with
  | none => none
  | some (least, extra) =>
      (take? extra bits).map fun (n, rest) => (least + n, rest)

/-- The byte at a distance back; before the first byte there are zeros. -/
def byteBack (distance : Nat) (out : Array UInt8) : UInt8 :=
  if distance ≤ out.size then out.getD (out.size - distance) 0 else 0

/-- Copies `n` bytes from a distance back; a copy may reach into itself. -/
def copy (distance : Nat) : Nat → Array UInt8 → Array UInt8
  | 0, out => out
  | n + 1, out => copy distance n (out.push (byteBack distance out))

/-- The output so far, and the bits that are left. -/
abbrev Progress := Array UInt8 × List Bool

/-- Reads a length and a distance and copies. -/
def readCopy (distances : Code) (symbol : Nat) (out : Array UInt8)
    (bits : List Bool) : Option Progress :=
  match readValue lengthTable (symbol - 257) bits with
  | none => none
  | some (length, bits) =>
      match distances.read bits with
      | none => none
      | some (symbol, bits) =>
          (readValue distanceTable symbol bits).map fun (distance, bits) =>
            (copy distance length out, bits)

/-- Reads symbols up to the end of a block; each takes at least one bit. -/
def readSymbols (literals distances : Code) :
    Nat → Array UInt8 → List Bool → Option Progress
  | 0, _, _ => none
  | fuel + 1, out, bits =>
      match literals.read bits with
      | none => none
      | some (symbol, bits) =>
          if symbol < 256 then
            readSymbols literals distances fuel
              (out.push (UInt8.ofNat symbol)) bits
          else if symbol = 256 then
            some (out, bits)
          else
            match readCopy distances symbol out bits with
            | none => none
            | some (out, bits) =>
                readSymbols literals distances fuel out bits

/-- Takes `n` bytes as they are. -/
def takeBytes : Nat → Array UInt8 → List Bool → Option Progress
  | 0, out, bits => some (out, bits)
  | n + 1, out, bits =>
      match take? 8 bits with
      | none => none
      | some (b, rest) => takeBytes n (out.push (UInt8.ofNat b)) rest

/-- Reads a stored block, which starts at the next byte. -/
def readStored (out : Array UInt8) (bits : List Bool) : Option Progress :=
  let bits := bits.drop (bits.length % 8)
  match take? 16 bits with
  | none => none
  | some (length, bits) =>
      match take? 16 bits with
      | none => none
      | some (check, bits) =>
          if length + check = 65535 then takeBytes length out bits else none

/-- The order in which lengths of the code for lengths are given. -/
def lengthOrder : List Nat :=
  [16, 17, 18, 0, 8, 7, 9, 6, 10, 5, 11, 4, 12, 3, 13, 2, 14, 1, 15]

/-- Reads `n` numbers of three bits. -/
def readShort : Nat → List Bool → Option (List Nat × List Bool)
  | 0, bits => some ([], bits)
  | n + 1, bits =>
      match take? 3 bits with
      | none => none
      | some (l, bits) =>
          (readShort n bits).map fun (ls, rest) => (l :: ls, rest)

/-- Reads a count in some bits and repeats a length so often. -/
def repeated (least extra length : Nat) (lengths : List Nat)
    (bits : List Bool) : Option (List Nat × List Bool) :=
  (take? extra bits).map fun (n, rest) =>
    (lengths ++ List.replicate (least + n) length, rest)

/-- Reads lengths until there are `wanted` of them. -/
def readLengths (code : Code) (wanted : Nat) :
    Nat → List Nat → List Bool → Option (List Nat × List Bool)
  | 0, _, _ => none
  | fuel + 1, lengths, bits =>
      if wanted = lengths.length then
        some (lengths, bits)
      else if wanted < lengths.length then
        none
      else
        match code.read bits with
        | none => none
        | some (symbol, bits) =>
            let next :=
              if symbol < 16 then some (lengths ++ [symbol], bits)
              else if symbol = 16 then
                lengths.getLast?.bind fun l => repeated 3 2 l lengths bits
              else if symbol = 17 then repeated 3 3 0 lengths bits
              else repeated 11 7 0 lengths bits
            match next with
            | none => none
            | some (lengths, bits) =>
                readLengths code wanted fuel lengths bits

/-- How many lengths a block has: for literals, distances, and lengths. -/
structure Sizes where
  literals : Nat
  distances : Nat
  lengths : Nat
deriving DecidableEq, Repr, Inhabited

/-- The most literals and lengths of copies that a code may have. -/
def maxLiterals : Nat := 286

/-- The most distances that a code may have. -/
def maxDistances : Nat := 30

/-- Reads the sizes of the codes of a block. -/
def readSizes (bits : List Bool) : Option (Sizes × List Bool) :=
  match take? 5 bits with
  | none => none
  | some (literals, bits) =>
      match take? 5 bits with
      | none => none
      | some (distances, bits) =>
          match take? 4 bits with
          | none => none
          | some (lengths, bits) =>
              let sizes := ⟨literals + 257, distances + 1, lengths + 4⟩
              if sizes.literals ≤ maxLiterals
                  && sizes.distances ≤ maxDistances then
                some (sizes, bits)
              else
                none

/-- Reads the code in which lengths are given; it must be complete. -/
def readLengthCode (sizes : Sizes) (bits : List Bool) :
    Option (Code × List Bool) :=
  match readShort sizes.lengths bits with
  | none => none
  | some (given, bits) =>
      let table := lengthOrder.zip given
      let code :=
        Code.ofLengths
          ((List.range 19).map fun s => (table.lookup s).getD 0)
      if code.isComplete then some (code, bits) else none

/-- Reads the two codes of a block that brings its own. -/
def readCodes (bits : List Bool) : Option ((Code × Code) × List Bool) :=
  match readSizes bits with
  | none => none
  | some (sizes, bits) =>
      match readLengthCode sizes bits with
      | none => none
      | some (code, bits) =>
          let wanted := sizes.literals + sizes.distances
          match readLengths code wanted (wanted + 1) [] bits with
          | none => none
          | some (lengths, bits) =>
              let own :=
                (Code.ofLengths (lengths.take sizes.literals),
                  Code.ofLengths (lengths.drop sizes.literals))
              if own.1.isSound && own.2.isSound then some (own, bits)
              else none

/-- Reads the contents of a block of a given type. -/
def readBlock (type : Nat) (out : Array UInt8) (bits : List Bool) :
    Option Progress :=
  match type with
  | 0 => readStored out bits
  | 1 =>
      readSymbols .fixedLiterals .fixedDistances (bits.length + 1) out bits
  | 2 =>
      match readCodes bits with
      | none => none
      | some ((literals, distances), bits) =>
          readSymbols literals distances (bits.length + 1) out bits
  | _ => none

/-- Reads blocks up to the one that is marked as the last. -/
def readBlocks : Nat → Array UInt8 → List Bool → Option (Array UInt8)
  | 0, _, _ => none
  | fuel + 1, out, bits =>
      match take? 1 bits with
      | none => none
      | some (last, bits) =>
          match take? 2 bits with
          | none => none
          | some (type, bits) =>
              match readBlock type out bits with
              | none => none
              | some (out, bits) =>
                  if last = 1 then some out else readBlocks fuel out bits

/-- The bytes that deflated data stands for. -/
def inflate? (bytes : List UInt8) : Option (List UInt8) :=
  let bits := bitsOf bytes
  (readBlocks (bits.length + 1) #[] bits).map Array.toList

end Inflate
end NativeGlue
