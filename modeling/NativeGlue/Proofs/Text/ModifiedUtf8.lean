import NativeGlue.Proofs.Text.Utf16
import NativeGlue.Text.ModifiedUtf8

/-!
# Modified UTF-8 is read back

The groups of bytes for UTF-16 units tell by their first byte how long they
are, so a sequence of them is read unit by unit, and a text is what its units
are read as. Bytes that are taken over as they are have the same text.

Main statement: `decode_encode_and_bounds`.
-/

namespace NativeGlue
namespace Text
namespace ModifiedUtf8

theorem toNat_ofNat_of_lt {n : Nat} (small : n < 256) :
    (UInt8.ofNat n).toNat = n := by
  rw [UInt8.toNat_ofNat', Nat.mod_eq_of_lt small]

theorem isContinuation_ofNat {n : Nat} (small : n < 64) :
    isContinuation (UInt8.ofNat (0x80 + n)) = true := by
  rw [isContinuation, toNat_ofNat_of_lt (by omega)]
  simp only [Bool.and_eq_true, decide_eq_true_eq]
  omega

/-- The group of a unit in front of other bytes is read as the unit. -/
theorem readGroup?_encodeUnit_append (u : UInt16) (rest : List UInt8) :
    readGroup? (encodeUnit u ++ rest) = some (u, rest) := by
  have bound := u.toNat_lt
  rw [encodeUnit]
  by_cases one : u.toNat ≠ 0 ∧ u.toNat < 0x80
  · have only := toNat_ofNat_of_lt (n := u.toNat) (by omega)
    rw [if_pos one, List.singleton_append]
    unfold readGroup?
    simp only [only]
    rw [if_pos one, UInt16.ofNat_toNat]
  rw [if_neg one]
  by_cases two : u.toNat < 0x800
  · have lead := toNat_ofNat_of_lt (n := 0xC0 + u.toNat / 64) (by omega)
    have last := toNat_ofNat_of_lt (n := 0x80 + u.toNat % 64) (by omega)
    have number : (0xC0 + u.toNat / 64 - 0xC0) * 64
        + (0x80 + u.toNat % 64 - 0x80) = u.toNat := by omega
    rw [if_pos two, List.cons_append, List.singleton_append]
    unfold readGroup?
    simp only [lead, last]
    rw [if_neg (by omega), if_pos (by omega),
      if_pos (isContinuation_ofNat (by omega)), number, UInt16.ofNat_toNat]
  · have lead := toNat_ofNat_of_lt (n := 0xE0 + u.toNat / 4096) (by omega)
    have next := toNat_ofNat_of_lt (n := 0x80 + u.toNat / 64 % 64) (by omega)
    have last := toNat_ofNat_of_lt (n := 0x80 + u.toNat % 64) (by omega)
    have number : (0xE0 + u.toNat / 4096 - 0xE0) * 4096
        + (0x80 + u.toNat / 64 % 64 - 0x80) * 64
        + (0x80 + u.toNat % 64 - 0x80) = u.toNat := by omega
    rw [if_neg two, List.cons_append, List.cons_append,
      List.singleton_append]
    unfold readGroup?
    simp only [lead, next, last]
    rw [if_neg (by omega), if_neg (by omega), if_pos (by omega),
      isContinuation_ofNat (by omega), isContinuation_ofNat (by omega),
      Bool.and_self, if_pos rfl, number, UInt16.ofNat_toNat]

theorem readUnits_of_readGroup? {bytes rest : List UInt8} {u : UInt16}
    (read : readGroup? bytes = some (u, rest)) :
    readUnits bytes = (readUnits rest).map (u :: ·) := by
  cases bytes with
  | nil =>
      cases read
  | cons b bs =>
      rw [readUnits]
      split
      · rename_i failed
        rw [failed] at read
        cases read
      · rename_i v behind found
        rw [found] at read
        cases read
        cases readUnits rest <;> rfl

/-- A sequence of groups is read as the units that they stand for. -/
theorem readUnits_flatMap_encodeUnit (us : List UInt16) :
    readUnits (us.flatMap encodeUnit) = .ok us := by
  induction us with
  | nil =>
      rw [List.flatMap_nil, readUnits]
  | cons u us ih =>
      rw [List.flatMap_cons, readUnits_of_readGroup?
        (readGroup?_encodeUnit_append u _), ih]
      rfl

section Plain

variable {b : UInt8} {bytes : List UInt8}

theorem isPlainByte_iff :
    isPlainByte b = true ↔ b.toNat ≠ 0 ∧ b.toNat < 0x80 := by
  rw [isPlainByte, Bool.and_eq_true, decide_eq_true_iff, decide_eq_true_iff]

theorem readUnits_of_isPlainByte
    (plain : ∀ b ∈ bytes, isPlainByte b = true) :
    readUnits bytes = .ok (bytes.map fun b => UInt16.ofNat b.toNat) := by
  induction bytes with
  | nil =>
      rw [readUnits, List.map_nil]
  | cons b bytes ih =>
      rw [List.forall_mem_cons] at plain
      have group : readGroup? (b :: bytes) =
          some (UInt16.ofNat b.toNat, bytes) := by
        unfold readGroup?
        exact if_pos (isPlainByte_iff.mp plain.1)
      rw [readUnits_of_readGroup? group, ih plain.2]
      rfl

theorem ofUnits?_of_isPlainByte
    (plain : ∀ b ∈ bytes, isPlainByte b = true) :
    ofUnits? (bytes.map fun b => UInt16.ofNat b.toNat) =
      some (bytes.map fun b => Char.ofNat b.toNat) := by
  induction bytes with
  | nil =>
      rfl
  | cons b bytes ih =>
      rw [List.forall_mem_cons] at plain
      have small := (isPlainByte_iff.mp plain.1).2
      have number : (UInt16.ofNat b.toNat).toNat = b.toNat := by
        rw [UInt16.toNat_ofNat', Nat.mod_eq_of_lt (by omega)]
      rw [List.map_cons, ofUnits?_cons, number, ih plain.2]
      · rfl
      · simp only [isHighSurrogate, number, Bool.and_eq_false_iff,
          decide_eq_false_iff_not]
        omega
      · simp only [isLowSurrogate, number, Bool.and_eq_false_iff,
          decide_eq_false_iff_not]
        omega

/-- Plain bytes are the text that their groups are read as. -/
theorem decode_eq_decodeGroups (start : Nat) (bytes : List UInt8) :
    decode start bytes = decodeGroups start bytes := by
  rw [decode]
  split
  · rename_i all
    have plain := List.all_eq_true.mp all
    rw [decodeGroups, readUnits_of_isPlainByte plain]
    simp only [ofUnits?_of_isPlainByte plain]
  · rfl

end Plain

/-- Decoding what a text is encoded as gives the text. -/
theorem decode_encode (start : Nat) (text : String) :
    decode start (encode text) = .ok text := by
  rw [decode_eq_decodeGroups, decodeGroups, encode,
    readUnits_flatMap_encodeUnit]
  simp only [ofUnits?_units, String.ofList_toList]

/-- Of no unit is a byte zero, and none opens a group of four. -/
theorem bounds_of_mem_encodeUnit {u : UInt16} {b : UInt8}
    (member : b ∈ encodeUnit u) : b.toNat ≠ 0 ∧ b.toNat < 0xF0 := by
  have bound := u.toNat_lt
  rw [encodeUnit] at member
  by_cases one : u.toNat ≠ 0 ∧ u.toNat < 0x80
  · rw [if_pos one, List.mem_singleton] at member
    rw [member, toNat_ofNat_of_lt (by omega)]
    omega
  rw [if_neg one] at member
  by_cases two : u.toNat < 0x800
  · rw [if_pos two] at member
    simp only [List.mem_cons, List.not_mem_nil, or_false] at member
    rcases member with rfl | rfl
    · rw [toNat_ofNat_of_lt (by omega)]
      omega
    · rw [toNat_ofNat_of_lt (by omega)]
      omega
  · rw [if_neg two] at member
    simp only [List.mem_cons, List.not_mem_nil, or_false] at member
    rcases member with rfl | rfl | rfl
    · rw [toNat_ofNat_of_lt (by omega)]
      omega
    · rw [toNat_ofNat_of_lt (by omega)]
      omega
    · rw [toNat_ofNat_of_lt (by omega)]
      omega

/--
A text is what its encoding is decoded as, wherever the encoding stands. No
byte of the encoding is zero, and none opens a group of four.
-/
theorem decode_encode_and_bounds (text : String) :
    (∀ start, decode start (encode text) = .ok text) ∧
      ∀ b ∈ encode text, b ≠ 0 ∧ b < 0xF0 := by
  refine ⟨fun start => decode_encode start text, fun b member => ?_⟩
  obtain ⟨u, -, inside⟩ := List.mem_flatMap.mp member
  obtain ⟨positive, small⟩ := bounds_of_mem_encodeUnit inside
  refine ⟨fun zero => positive ?_, UInt8.lt_iff_toNat_lt.mpr small⟩
  rw [zero]
  rfl

/-- Zero takes two bytes, and the last character the two groups of its pair. -/
theorem decode_encode_and_bounds_supplementary :
    encode "\x00é😀" =
        [0xC0, 0x80, 0xC3, 0xA9, 0xED, 0xA0, 0xBD, 0xED, 0xB8, 0x80] ∧
      decode 7 (encode "\x00é😀") = .ok "\x00é😀" ∧
      (0xED : UInt8) ∈ encode "\x00é😀" ∧
      (0xED : UInt8) ≠ 0 ∧ (0xED : UInt8) < 0xF0 := by
  have bytes : encode "\x00é😀" =
      [0xC0, 0x80, 0xC3, 0xA9, 0xED, 0xA0, 0xBD, 0xED, 0xB8, 0x80] := by
    decide
  have member : (0xED : UInt8) ∈ encode "\x00é😀" := by
    rw [bytes]
    decide
  obtain ⟨decoded, bounds⟩ := decode_encode_and_bounds "\x00é😀"
  exact ⟨bytes, decoded 7, member, bounds _ member⟩

end ModifiedUtf8
end Text
end NativeGlue
