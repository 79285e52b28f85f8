import NativeGlue.Hash.Xxh64
import NativeGlue.Text.Basic
import NativeGlue.Text.Digits

/-!
# Fingerprints

A fingerprint is a word of 64 bits that stands for a list of native bindings
in their order. The parts of a binding are hashed under a marker of their own,
so that equal spellings in different places differ, and words are joined by a
multiply-and-add chain, so that order counts.
-/

namespace NativeGlue

/-- A word that stands for a sequence of bindings. -/
structure Fingerprint where
  word : UInt64
deriving DecidableEq, Repr, Inhabited

namespace Fingerprint

/-- What a hashed text is: the marker is mixed into the hash. -/
inductive Domain where
  | className
  | method
  | descriptor
  | entryPoint
  | bareName
deriving DecidableEq, Repr

/-- The marker of a domain. -/
def Domain.marker : Domain → UInt64
  | className => 0x2fac10b63a6cc57c
  | method => 0x7d3c8b4a92e15f6d
  | descriptor => 0x5ea77ffbcdf5f302
  | entryPoint => 0x9a7f3d5e2b8c4601
  | bareName => 0x1a095090689d4647

/-- The multiplier between the links of a chain. -/
def multiplier : UInt64 := 0x4bc94d6bd06053ad

/-- The fingerprint of nothing, with which every chain starts. -/
def empty : Fingerprint := ⟨0⟩

/-- The chain with one more link. -/
def chain (f next : Fingerprint) : Fingerprint :=
  ⟨f.word * multiplier + next.word⟩

/-- The links of a list chained onto a fingerprint. -/
def chainAll (f : Fingerprint) (links : List Fingerprint) : Fingerprint :=
  links.foldl chain f

/-- The fingerprint of one text under a given hash. -/
def ofPart (hash : List UInt8 → UInt64) (domain : Domain) (text : String) :
    Fingerprint :=
  ⟨domain.marker ^^^ hash (Text.utf8 text)⟩

/-- The fingerprint of one binding under a given hash. -/
def ofBindingWith (hash : List UInt8 → UInt64)
    (className method descriptor entryPoint : String) : Fingerprint :=
  empty.chainAll
    [ofPart hash .className className, ofPart hash .method method,
      ofPart hash .descriptor descriptor, ofPart hash .entryPoint entryPoint]

/-- The fingerprint of one binding. -/
def ofBinding (className method descriptor entryPoint : String) :
    Fingerprint :=
  ofBindingWith Hash.xxh64 className method descriptor entryPoint

/-- The fingerprint of a name standing alone. -/
def ofName (name : String) : Fingerprint :=
  ofPart Hash.xxh64 .bareName name

/-- Whether the fingerprint is that of nothing. -/
def isEmpty (f : Fingerprint) : Bool :=
  f = empty

/-- The word in hexadecimal, always with sixteen digits. -/
def render (f : Fingerprint) : String :=
  "0x" ++ Text.hex 16 f.word.toNat

instance : ToString Fingerprint := ⟨render⟩

end Fingerprint
end NativeGlue
