import Mathlib.Algebra.Group.Nat.Defs
import NativeGlue.Proofs.Text.ModifiedUtf8

/-!
# What modified UTF-8 decodes

**Input.** Any byte string.

A group is a byte from `01` to `7F`, a byte from `C0` to `DF` with one byte
that continues it, or a byte from `E0` to `EF` with two. A byte string is
decoded exactly if it is a sequence of groups, and these stand for units in
which every surrogate is half of a pair. Otherwise the fault is the place at
which, from the left, no group can be read any more; if there is none, it is
the start.

A group may be longer than its unit needs. Such groups are decoded as well,
and they alone make the encoding of what is decoded another byte string.

Main statement: `decode_accepts_groups`.
-/

namespace NativeGlue
namespace Text
namespace ModifiedUtf8

/-- A group of bytes. -/
inductive Group where
  | one (a : UInt8) (range : 0x01 ≤ a ∧ a ≤ 0x7F)
  | two (a b : UInt8) (lead : 0xC0 ≤ a ∧ a ≤ 0xDF)
      (next : 0x80 ≤ b ∧ b ≤ 0xBF)
  | three (a b c : UInt8) (lead : 0xE0 ≤ a ∧ a ≤ 0xEF)
      (next : 0x80 ≤ b ∧ b ≤ 0xBF) (last : 0x80 ≤ c ∧ c ≤ 0xBF)

namespace Group

/-- The bytes of a group. -/
def bytes : Group → List UInt8
  | one a _ => [a]
  | two a b _ _ => [a, b]
  | three a b c _ _ _ => [a, b, c]

/-- The unit of a group: the bits of its bytes without their marks. -/
def unit : Group → UInt16
  | one a _ => a.toUInt16
  | two a b _ _ =>
      (a &&& 0x1F).toUInt16 <<< 6 ||| (b &&& 0x3F).toUInt16
  | three a b c _ _ _ =>
      (a &&& 0x0F).toUInt16 <<< 12 ||| (b &&& 0x3F).toUInt16 <<< 6
        ||| (c &&& 0x3F).toUInt16

/-- A group of two for a unit that one byte holds, or of three where two do. -/
def IsOverlong : Group → Prop
  | one _ _ => False
  | g@(two _ _ _ _) => 0x01 ≤ g.unit ∧ g.unit ≤ 0x7F
  | g@(three _ _ _ _ _ _) => g.unit < 0x800

instance decidableIsOverlong : (g : Group) → Decidable g.IsOverlong
  | one _ _ => .isFalse not_false
  | two _ _ _ _ => inferInstanceAs (Decidable (_ ∧ _))
  | three _ _ _ _ _ _ => inferInstanceAs (Decidable (_ < _))

/-- A byte is in a range if its number is. -/
theorem range_iff {low high a : UInt8} (first behind : Nat)
    (starts : low.toNat = first) (ends : high.toNat + 1 = behind) :
    low ≤ a ∧ a ≤ high ↔ first ≤ a.toNat ∧ a.toNat < behind := by
  rw [UInt8.le_iff_toNat_le, UInt8.le_iff_toNat_le, starts, ← ends,
    Nat.lt_succ_iff]

theorem toNat_lowBits (mask : UInt8) (width : Nat)
    (ones : mask.toNat = 2 ^ width - 1) (b : UInt8) :
    (b &&& mask).toUInt16.toNat = b.toNat % 2 ^ width := by
  rw [UInt8.toNat_toUInt16, UInt8.toNat_and, ones,
    Nat.and_two_pow_sub_one_eq_mod]

/-- Bits that do not overlap add up. -/
theorem toNat_or {x y : UInt16} (width high : Nat)
    (front : x.toNat = 2 ^ width * high) (small : y.toNat < 2 ^ width) :
    (x ||| y).toNat = x.toNat + y.toNat := by
  rw [UInt16.toNat_or, front, ← Nat.two_pow_add_eq_or_of_lt small]

theorem toNat_shiftLeft {x : UInt16} (width : UInt16) (n : Nat)
    (amount : width.toNat % 16 = n) (fits : x.toNat * 2 ^ n < 2 ^ 16) :
    (x <<< width).toNat = x.toNat * 2 ^ n := by
  rw [UInt16.toNat_shiftLeft, amount, Nat.shiftLeft_eq,
    Nat.mod_eq_of_lt fits]

theorem toNat_unit_two {a b : UInt8} (lead : 0xC0 ≤ a ∧ a ≤ 0xDF)
    (next : 0x80 ≤ b ∧ b ≤ 0xBF) :
    (two a b lead next).unit.toNat =
      (a.toNat - 0xC0) * 64 + (b.toNat - 0x80) := by
  have first := toNat_lowBits 0x1F 5 rfl a
  have second := toNat_lowBits 0x3F 6 rfl b
  have front := (range_iff 0xC0 0xE0 rfl rfl).mp lead
  have behind := (range_iff 0x80 0xC0 rfl rfl).mp next
  have shifted := toNat_shiftLeft (x := (a &&& 0x1F).toUInt16) 6 6 rfl
    (by omega)
  rw [unit, toNat_or 6 (a &&& 0x1F).toUInt16.toNat (by omega) (by omega),
    shifted]
  omega

theorem toNat_unit_three {a b c : UInt8} (lead : 0xE0 ≤ a ∧ a ≤ 0xEF)
    (next : 0x80 ≤ b ∧ b ≤ 0xBF) (last : 0x80 ≤ c ∧ c ≤ 0xBF) :
    (three a b c lead next last).unit.toNat =
      (a.toNat - 0xE0) * 4096 + (b.toNat - 0x80) * 64
        + (c.toNat - 0x80) := by
  have first := toNat_lowBits 0x0F 4 rfl a
  have second := toNat_lowBits 0x3F 6 rfl b
  have third := toNat_lowBits 0x3F 6 rfl c
  have front := (range_iff 0xE0 0xF0 rfl rfl).mp lead
  have inside := (range_iff 0x80 0xC0 rfl rfl).mp next
  have behind := (range_iff 0x80 0xC0 rfl rfl).mp last
  have high := toNat_shiftLeft (x := (a &&& 0x0F).toUInt16) 12 12 rfl
    (by omega)
  have middle := toNat_shiftLeft (x := (b &&& 0x3F).toUInt16) 6 6 rfl
    (by omega)
  have upper := toNat_or (x := (a &&& 0x0F).toUInt16 <<< 12)
    (y := (b &&& 0x3F).toUInt16 <<< 6) 12 (a &&& 0x0F).toUInt16.toNat
    (by omega) (by omega)
  rw [unit, toNat_or 6 ((a &&& 0x0F).toUInt16.toNat * 64
    + (b &&& 0x3F).toUInt16.toNat) (by omega) (by omega), upper, high, middle]
  omega

theorem isContinuation_iff {b : UInt8} :
    isContinuation b = true ↔ 0x80 ≤ b ∧ b ≤ 0xBF := by
  rw [isContinuation, Bool.and_eq_true, decide_eq_true_iff,
    decide_eq_true_iff, range_iff 0x80 0xC0 rfl rfl]

/-- A group in front of other bytes is read as its unit. -/
theorem readGroup?_append (g : Group) (rest : List UInt8) :
    readGroup? (g.bytes ++ rest) = some (g.unit, rest) := by
  cases g with
  | one a range =>
      have bounds := (range_iff 0x01 0x80 rfl rfl).mp range
      rw [bytes, List.singleton_append]
      unfold readGroup?
      simp only
      rw [if_pos (by omega), unit, ← UInt8.toNat_toUInt16,
        UInt16.ofNat_toNat]
  | two a b lead next =>
      have bounds := (range_iff 0xC0 0xE0 rfl rfl).mp lead
      rw [bytes, List.cons_append, List.singleton_append]
      unfold readGroup?
      simp only
      rw [if_neg (by omega), if_pos (by omega),
        if_pos (isContinuation_iff.mpr next), ← toNat_unit_two lead next,
        UInt16.ofNat_toNat]
  | three a b c lead next last =>
      have bounds := (range_iff 0xE0 0xF0 rfl rfl).mp lead
      rw [bytes, List.cons_append, List.cons_append, List.singleton_append]
      unfold readGroup?
      simp only
      rw [if_neg (by omega), if_neg (by omega), if_pos (by omega),
        isContinuation_iff.mpr next, isContinuation_iff.mpr last,
        Bool.and_self, if_pos rfl, ← toNat_unit_three lead next last,
        UInt16.ofNat_toNat]

/-- What is read in front of a byte string is a group. -/
theorem exists_of_readGroup? {bytes rest : List UInt8} {u : UInt16}
    (read : readGroup? bytes = some (u, rest)) :
    ∃ g : Group, g.unit = u ∧ bytes = g.bytes ++ rest := by
  -- a group with these bytes is enough, since its unit is read from them
  suffices ∃ g : Group, bytes = g.bytes ++ rest by
    obtain ⟨g, rfl⟩ := this
    rw [readGroup?_append] at read
    exact ⟨g, congrArg Prod.fst (Option.some.inj read), rfl⟩
  unfold readGroup? at read
  split at read
  · cases read
  · rename_i a behind
    simp only at read
    split at read
    · rename_i range
      obtain ⟨-, rfl⟩ := Prod.mk.inj (Option.some.inj read)
      exact ⟨.one a ((range_iff 0x01 0x80 rfl rfl).mpr (by omega)), rfl⟩
    · split at read
      · rename_i lead
        split at read
        · split at read
          · rename_i b behind next
            obtain ⟨-, rfl⟩ := Prod.mk.inj (Option.some.inj read)
            exact ⟨.two a b ((range_iff 0xC0 0xE0 rfl rfl).mpr lead)
              (isContinuation_iff.mp next), rfl⟩
          · cases read
        · cases read
      · split at read
        · rename_i lead
          split at read
          · split at read
            · rename_i b c behind both
              rw [Bool.and_eq_true] at both
              obtain ⟨-, rfl⟩ := Prod.mk.inj (Option.some.inj read)
              exact ⟨.three a b c ((range_iff 0xE0 0xF0 rfl rfl).mpr lead)
                (isContinuation_iff.mp both.1)
                (isContinuation_iff.mp both.2), rfl⟩
            · cases read
          · cases read
        · cases read

/-- A unit is encoded as any group of it that is not longer than needed. -/
theorem encodeUnit_unit_eq_iff (g : Group) :
    encodeUnit g.unit = g.bytes ↔ ¬ g.IsOverlong := by
  cases g with
  | one a range =>
      have bounds := (range_iff 0x01 0x80 rfl rfl).mp range
      have number : (one a range).unit.toNat = a.toNat :=
        UInt8.toNat_toUInt16 a
      rw [encodeUnit, number, if_pos (by omega), UInt8.ofNat_toNat]
      exact iff_of_true rfl not_false
  | two a b lead next =>
      have front := (range_iff 0xC0 0xE0 rfl rfl).mp lead
      have behind := (range_iff 0x80 0xC0 rfl rfl).mp next
      have number := toNat_unit_two lead next
      have short : (two a b lead next).IsOverlong ↔
          (two a b lead next).unit.toNat ≠ 0 ∧
            (two a b lead next).unit.toNat < 0x80 := by
        rw [IsOverlong, UInt16.le_iff_toNat_le, UInt16.le_iff_toNat_le,
          ← Nat.pos_iff_ne_zero]
        exact and_congr_right fun _ => Nat.lt_succ_iff.symm
      rw [short, encodeUnit]
      generalize (two a b lead next).unit.toNat = n at number
      by_cases fits : n ≠ 0 ∧ n < 0x80
      · rw [if_pos fits]
        simp [bytes, fits]
      · have first : 0xC0 + n / 64 = a.toNat := by omega
        have second : 0x80 + n % 64 = b.toNat := by omega
        rw [if_neg fits, if_pos (by omega), first, second, UInt8.ofNat_toNat,
          UInt8.ofNat_toNat]
        exact iff_of_true rfl fits
  | three a b c lead next last =>
      have front := (range_iff 0xE0 0xF0 rfl rfl).mp lead
      have inside := (range_iff 0x80 0xC0 rfl rfl).mp next
      have behind := (range_iff 0x80 0xC0 rfl rfl).mp last
      have number := toNat_unit_three lead next last
      have short : (three a b c lead next last).IsOverlong ↔
          (three a b c lead next last).unit.toNat < 0x800 := by
        rw [IsOverlong, UInt16.lt_iff_toNat_lt]
        rfl
      rw [short, encodeUnit]
      generalize (three a b c lead next last).unit.toNat = n at number
      by_cases fits : n < 0x800
      · -- one byte or two are too few for the group
        refine iff_of_false (fun same => ?_) (not_not_intro fits)
        have size := congrArg List.length same
        split at size
        · cases size
        · cases size
      · have first : 0xE0 + n / 4096 = a.toNat := by omega
        have second : 0x80 + n / 64 % 64 = b.toNat := by omega
        have third : 0x80 + n % 64 = c.toNat := by omega
        rw [if_neg (by omega), if_neg fits, first, second, third,
          UInt8.ofNat_toNat, UInt8.ofNat_toNat, UInt8.ofNat_toNat]
        exact iff_of_true rfl fits

end Group

/-- Bytes with no group in front, though some are left. -/
def Unreadable (left : List UInt8) : Prop :=
  left ≠ [] ∧ ∀ (g : Group) (behind : List UInt8), left ≠ g.bytes ++ behind

theorem unreadable_iff {left : List UInt8} :
    Unreadable left ↔ left ≠ [] ∧ readGroup? left = none := by
  refine and_congr_right fun _ => ?_
  constructor
  · intro stuck
    cases read : readGroup? left with
    | none => rfl
    | some found =>
        obtain ⟨g, -, eq⟩ := Group.exists_of_readGroup? read
        exact absurd eq (stuck g found.2)
  · rintro failed g behind rfl
    rw [g.readGroup?_append] at failed
    cases failed

section Sequences

variable {bytes left : List UInt8} {us : List UInt16}

theorem readUnits_flatMap_bytes_append (gs : List Group)
    (rest : List UInt8) :
    readUnits (gs.flatMap Group.bytes ++ rest) =
      (readUnits rest).map (gs.map Group.unit ++ ·) := by
  induction gs with
  | nil =>
      rw [List.flatMap_nil, List.nil_append]
      cases readUnits rest <;> rfl
  | cons g gs ih =>
      rw [List.flatMap_cons, List.append_assoc,
        readUnits_of_readGroup? (g.readGroup?_append _), ih]
      cases readUnits rest <;> rfl

/-- A sequence of groups is read as their units. -/
theorem readUnits_flatMap_bytes (gs : List Group) :
    readUnits (gs.flatMap Group.bytes) = .ok (gs.map Group.unit) := by
  have read := readUnits_flatMap_bytes_append gs []
  rw [List.append_nil, readUnits] at read
  rw [read, Except.map, List.append_nil]

theorem readUnits_of_unreadable (stuck : Unreadable left) :
    readUnits left = .error left := by
  obtain ⟨some, failed⟩ := unreadable_iff.mp stuck
  cases left with
  | nil => exact absurd rfl some
  | cons b bs =>
      rw [readUnits]
      split
      · rfl
      · rename_i found
        rw [found] at failed
        cases failed

/-- From the left, there are groups to the end, or up to where there is none. -/
theorem exists_groups_append (bytes : List UInt8) :
    ∃ (gs : List Group) (left : List UInt8),
      bytes = gs.flatMap Group.bytes ++ left ∧
        (left = [] ∨ Unreadable left) := by
  induction bytes using readUnits.induct with
  | case1 =>
      exact ⟨[], [], rfl, .inl rfl⟩
  | case2 b bs failed =>
      exact ⟨[], b :: bs, rfl,
        .inr (unreadable_iff.mpr ⟨List.cons_ne_nil b bs, failed⟩)⟩
  | _ b bs u rest read _ _ _ ih =>
      obtain ⟨g, -, eq⟩ := Group.exists_of_readGroup? read
      obtain ⟨gs, left, rfl, ends⟩ := ih
      exact ⟨g :: gs, left, by
        rw [eq, List.flatMap_cons, List.append_assoc], ends⟩

/-- The units of groups are encoded as these if no group is too long. -/
theorem flatMap_encodeUnit_eq_iff (gs : List Group) :
    (gs.map Group.unit).flatMap encodeUnit = gs.flatMap Group.bytes ↔
      ∀ g ∈ gs, ¬ g.IsOverlong := by
  induction gs with
  | nil =>
      simp
  | cons g gs ih =>
      rw [List.map_cons, List.flatMap_cons, List.flatMap_cons,
        List.forall_mem_cons, ← g.encodeUnit_unit_eq_iff, ← ih]
      constructor
      · intro same
        -- both sides are read as the unit, and then the rest is left
        have read := readGroup?_encodeUnit_append g.unit
          ((gs.map Group.unit).flatMap encodeUnit)
        rw [same, g.readGroup?_append] at read
        have rest := (Prod.mk.inj (Option.some.inj read)).2
        rw [← rest] at same
        exact ⟨List.append_cancel_right same, rest.symm⟩
      · rintro ⟨first, rest⟩
        rw [first, rest]

end Sequences

section Decoding

variable {start : Nat} {left : List UInt8} {text : String}

theorem decode_groups_eq_ok_iff (gs : List Group) :
    decode start (gs.flatMap Group.bytes) = .ok text ↔
      units text.toList = gs.map Group.unit := by
  rw [decode_eq_decodeGroups, decodeGroups, readUnits_flatMap_bytes,
    ← ofUnits?_eq_some_iff]
  simp only
  cases ofUnits? (gs.map Group.unit) with
  | none => simp
  | some cs => simp [← String.toList_inj]

theorem decode_groups_of_not_paired {gs : List Group}
    (unpaired : ¬ Paired (gs.map Group.unit)) :
    decode start (gs.flatMap Group.bytes) = .error start := by
  rw [decode_eq_decodeGroups, decodeGroups, readUnits_flatMap_bytes]
  simp only [ofUnits?_eq_none_iff.mpr unpaired]

/-- The fault stands behind the groups in front. -/
theorem decode_of_unreadable (gs : List Group) (stuck : Unreadable left) :
    decode start (gs.flatMap Group.bytes ++ left) =
      .error (start + (gs.flatMap Group.bytes).length) := by
  rw [decode_eq_decodeGroups, decodeGroups, readUnits_flatMap_bytes_append,
    readUnits_of_unreadable stuck]
  simp only [Except.map, List.length_append, Nat.add_sub_cancel_right]

/--
A byte string is decoded exactly if it is a sequence of groups whose units have
their surrogates in pairs. The text then has these units, and its encoding is
the byte string if no group is longer than its unit needs. A byte string that
is no sequence of groups goes on, behind some groups, with bytes that start
none, and the fault stands there. If it is one, and a surrogate is not half of
a pair, the fault stands at the start.
-/
theorem decode_accepts_groups (start : Nat) (bytes : List UInt8) :
    ((∃ text, decode start bytes = .ok text) ↔
      ∃ gs : List Group, bytes = gs.flatMap Group.bytes ∧
        Paired (gs.map Group.unit)) ∧
    (∀ (gs : List Group) (text : String),
      bytes = gs.flatMap Group.bytes → decode start bytes = .ok text →
        units text.toList = gs.map Group.unit ∧
          (encode text = bytes ↔ ∀ g ∈ gs, ¬ g.IsOverlong)) ∧
    ((¬ ∃ gs : List Group, bytes = gs.flatMap Group.bytes) →
      ∃ (gs : List Group) (left : List UInt8),
        bytes = gs.flatMap Group.bytes ++ left ∧ Unreadable left) ∧
    (∀ (gs : List Group) (left : List UInt8),
      bytes = gs.flatMap Group.bytes ++ left → Unreadable left →
        decode start bytes =
          .error (start + (gs.flatMap Group.bytes).length)) ∧
    ∀ gs : List Group, bytes = gs.flatMap Group.bytes →
      ¬ Paired (gs.map Group.unit) → decode start bytes = .error start := by
  refine ⟨⟨?_, ?_⟩, ?_, ?_, ?_, ?_⟩
  · rintro ⟨text, decoded⟩
    obtain ⟨gs, left, rfl, rfl | stuck⟩ := exists_groups_append bytes
    · rw [List.append_nil] at decoded ⊢
      have same := (decode_groups_eq_ok_iff gs).mp decoded
      exact ⟨gs, rfl, paired_of_ofUnits? (ofUnits?_eq_some_iff.mpr same)⟩
    · rw [decode_of_unreadable gs stuck] at decoded
      cases decoded
  · rintro ⟨gs, rfl, paired⟩
    obtain ⟨cs, same⟩ := paired.exists_units
    refine ⟨String.ofList cs, (decode_groups_eq_ok_iff gs).mpr ?_⟩
    rw [String.toList_ofList, same]
  · rintro gs text rfl decoded
    have same := (decode_groups_eq_ok_iff gs).mp decoded
    refine ⟨same, ?_⟩
    rw [encode, same, flatMap_encodeUnit_eq_iff]
  · intro other
    obtain ⟨gs, left, rfl, rfl | stuck⟩ := exists_groups_append bytes
    · exact absurd ⟨gs, List.append_nil _⟩ other
    · exact ⟨gs, left, rfl, stuck⟩
  · rintro gs left rfl stuck
    exact decode_of_unreadable gs stuck
  · rintro gs rfl unpaired
    exact decode_groups_of_not_paired unpaired

/--
A letter in two bytes is decoded, but encoded in one. Bytes that are cut off
are the fault at their place, and half of a pair is one at the start.
-/
theorem decode_accepts_groups_overlong :
    ((∃ text, decode 10 [0x61, 0xC1, 0xA1] = .ok text) ∧
      decode 10 [0x61, 0xC1, 0xA1] = .ok "aa" ∧
      units "aa".toList = [0x61, 0x61] ∧
      encode "aa" ≠ [0x61, 0xC1, 0xA1]) ∧
    (Unreadable [0xE2, 0x82] ∧ decode 10 [0x61, 0xE2, 0x82] = .error 11 ∧
      ∃ (gs : List Group) (left : List UInt8),
        [0x61, 0xE2, 0x82] = gs.flatMap Group.bytes ++ left ∧
          Unreadable left) ∧
    ¬ Paired [0x61, 0xD800] ∧
      decode 10 [0x61, 0xED, 0xA0, 0x80] = .error 10 := by
  have cut : Unreadable [0xE2, 0x82] := unreadable_iff.mpr (by decide)
  have half : ¬ Paired [0x61, 0xD800] := ofUnits?_eq_none_iff.mp (by decide)
  have decoded : decode 10 [0x61, 0xC1, 0xA1] = .ok "aa" :=
    (decode_groups_eq_ok_iff [.one 0x61 (by decide),
      .two 0xC1 0xA1 (by decide) (by decide)]).mpr (by decide)
  refine ⟨?_, ?_, half, ?_⟩
  · obtain ⟨accepted, texts, -⟩ :=
      decode_accepts_groups 10 [0x61, 0xC1, 0xA1]
    obtain ⟨same, shortest⟩ := texts [.one 0x61 (by decide),
      .two 0xC1 0xA1 (by decide) (by decide)] "aa" rfl decoded
    have paired : Paired [0x61, 0x61] :=
      .basic (by decide) (.basic (by decide) .nil)
    refine ⟨accepted.mpr ⟨[.one 0x61 (by decide),
      .two 0xC1 0xA1 (by decide) (by decide)], rfl, paired⟩, decoded, same,
      fun eq => ?_⟩
    exact shortest.mp eq _ (List.mem_cons_of_mem _ List.mem_cons_self)
      (by decide)
  · obtain ⟨-, -, splits, faults, -⟩ :=
      decode_accepts_groups 10 [0x61, 0xE2, 0x82]
    have fault := faults [.one 0x61 (by decide)] _ rfl cut
    refine ⟨cut, fault, splits ?_⟩
    rintro ⟨gs, eq⟩
    -- a sequence of groups is read to its end
    have all := readUnits_flatMap_bytes gs
    rw [← eq] at all
    have short := readUnits_flatMap_bytes_append [.one 0x61 (by decide)]
      [0xE2, 0x82]
    rw [readUnits_of_unreadable cut] at short
    cases all.symm.trans short
  · obtain ⟨-, -, -, -, unpaired⟩ :=
      decode_accepts_groups 10 [0x61, 0xED, 0xA0, 0x80]
    exact unpaired [.one 0x61 (by decide),
      .three 0xED 0xA0 0x80 (by decide) (by decide) (by decide)] rfl half

end Decoding

end ModifiedUtf8
end Text
end NativeGlue
