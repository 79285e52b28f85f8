/-!
# The XXH64 hash

A word of 64 bits computed from a byte string with seed zero. Stripes of 32
bytes are absorbed by four accumulators; what remains is absorbed in steps of
eight, four and one byte, and a final mix spreads every bit over the word.
-/

namespace NativeGlue
namespace Hash

/-- The five multipliers of the hash. -/
def prime1 : UInt64 := 0x9E3779B185EBCA87

@[inherit_doc prime1]
def prime2 : UInt64 := 0xC2B2AE3D27D4EB4F

@[inherit_doc prime1]
def prime3 : UInt64 := 0x165667B19E3779F9

@[inherit_doc prime1]
def prime4 : UInt64 := 0x85EBCA77C2B2AE63

@[inherit_doc prime1]
def prime5 : UInt64 := 0x27D4EB2F165667C5

/-- A word turned left by a number of bits between 1 and 63. -/
def rotateLeft (x k : UInt64) : UInt64 :=
  (x <<< k) ||| (x >>> (64 - k))

/-- A little-endian word. -/
def littleEndian : List UInt8 → UInt64
  | [] => 0
  | b :: bs => b.toUInt64 ||| (littleEndian bs <<< 8)

/-- One accumulator takes in one lane. -/
def round (acc lane : UInt64) : UInt64 :=
  rotateLeft (acc + lane * prime2) 31 * prime1

/-- An accumulator is folded into the hash. -/
def mergeRound (hash acc : UInt64) : UInt64 :=
  (hash ^^^ round 0 acc) * prime1 + prime4

/-- The four accumulators. -/
structure Lanes where
  a : UInt64
  b : UInt64
  c : UInt64
  d : UInt64

/-- The accumulators before the first stripe. -/
def Lanes.start : Lanes :=
  ⟨prime1 + prime2, prime2, 0, 0 - prime1⟩

/-- The accumulators take in one stripe of 32 bytes. -/
def Lanes.absorb (l : Lanes) (stripe : List UInt8) : Lanes where
  a := round l.a (littleEndian (stripe.take 8))
  b := round l.b (littleEndian ((stripe.drop 8).take 8))
  c := round l.c (littleEndian ((stripe.drop 16).take 8))
  d := round l.d (littleEndian ((stripe.drop 24).take 8))

/-- The accumulators joined in one word. -/
def Lanes.converge (l : Lanes) : UInt64 :=
  let sum :=
    rotateLeft l.a 1 + rotateLeft l.b 7 + rotateLeft l.c 12
      + rotateLeft l.d 18
  [l.a, l.b, l.c, l.d].foldl mergeRound sum

/-- Absorbs whole stripes and returns the bytes that fill none. -/
def absorbStripes (l : Lanes) (bytes : List UInt8) : Lanes × List UInt8 :=
  if 32 ≤ bytes.length then
    absorbStripes (l.absorb (bytes.take 32)) (bytes.drop 32)
  else
    (l, bytes)
termination_by bytes.length
decreasing_by
  simp only [List.length_drop]
  omega

/-- Absorbs fewer than 32 bytes: words of eight, then four, then bytes. -/
def absorbTail (hash : UInt64) : List UInt8 → UInt64
  | a :: b :: c :: d :: e :: f :: g :: h :: rest =>
      let lane := littleEndian [a, b, c, d, e, f, g, h]
      absorbTail
        (rotateLeft (hash ^^^ round 0 lane) 27 * prime1 + prime4) rest
  | a :: b :: c :: d :: rest =>
      let lane := littleEndian [a, b, c, d] * prime1
      absorbTail (rotateLeft (hash ^^^ lane) 23 * prime2 + prime3) rest
  | a :: rest =>
      absorbTail
        (rotateLeft (hash ^^^ (a.toUInt64 * prime5)) 11 * prime1) rest
  | [] => hash

/-- Spreads every bit over the word. -/
def avalanche (hash : UInt64) : UInt64 :=
  let hash := (hash ^^^ (hash >>> 33)) * prime2
  let hash := (hash ^^^ (hash >>> 29)) * prime3
  hash ^^^ (hash >>> 32)

/-- The XXH64 hash of a byte string. -/
def xxh64 (bytes : List UInt8) : UInt64 :=
  let (lanes, tail) := absorbStripes .start bytes
  let start :=
    if 32 ≤ bytes.length then lanes.converge else prime5
  avalanche (absorbTail (start + UInt64.ofNat bytes.length) tail)

end Hash
end NativeGlue
