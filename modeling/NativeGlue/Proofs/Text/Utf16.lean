import NativeGlue.Text.Utf16

/-!
# Texts and their UTF-16 units

`ofUnits?` reads back what `units` writes, so a text is determined by its
units. The units of a text are never unpaired surrogates: a character of the
basic plane is a unit that is no surrogate, and any other one is a pair.
Conversely, all units with their surrogates in pairs are those of a text.
-/

namespace NativeGlue
namespace Text

/-- The numbers of characters leave out the surrogates. -/
theorem toNat_lt_or_lt (c : Char) :
    c.toNat < 0xD800 ∨ (0xDFFF < c.toNat ∧ c.toNat < 0x110000) := by
  have valid := c.valid
  simp only [UInt32.isValidChar, Nat.isValidChar] at valid
  exact valid

theorem ofUnits?_cons {u : UInt16} (us : List UInt16)
    (high : isHighSurrogate u = false) (low : isLowSurrogate u = false) :
    ofUnits? (u :: us) =
      (ofUnits? us).map (Char.ofNat u.toNat :: ·) := by
  cases us with
  | nil =>
      simp [ofUnits?, high, low]
  | cons v us =>
      rw [ofUnits?]
      simp [high, low]

theorem ofUnits?_pair {u v : UInt16} (us : List UInt16)
    (high : isHighSurrogate u = true) (low : isLowSurrogate v = true) :
    ofUnits? (u :: v :: us) = (ofUnits? us).map (pairChar u v :: ·) := by
  rw [ofUnits?]
  simp [high, low]

/-- The units of a character in front of others are read as the character. -/
theorem ofUnits?_charUnits_append (c : Char) (us : List UInt16) :
    ofUnits? (charUnits c ++ us) = (ofUnits? us).map (c :: ·) := by
  have range := toNat_lt_or_lt c
  unfold charUnits
  simp only
  split
  · rename_i basic
    have toNat : (UInt16.ofNat c.toNat).toNat = c.toNat := by
      simp [Nat.mod_eq_of_lt basic]
    rw [List.singleton_append, ofUnits?_cons, toNat, Char.ofNat_toNat]
    · simp only [isHighSurrogate, toNat, Bool.and_eq_false_iff,
        decide_eq_false_iff_not]
      omega
    · simp only [isLowSurrogate, toNat, Bool.and_eq_false_iff,
        decide_eq_false_iff_not]
      omega
  · rename_i beyond
    have high : (UInt16.ofNat (0xD800 + (c.toNat - 0x10000) / 0x400)).toNat =
        0xD800 + (c.toNat - 0x10000) / 0x400 := by
      rw [UInt16.toNat_ofNat']
      omega
    have low : (UInt16.ofNat (0xDC00 + (c.toNat - 0x10000) % 0x400)).toNat =
        0xDC00 + (c.toNat - 0x10000) % 0x400 := by
      rw [UInt16.toNat_ofNat']
      omega
    have pair : 0x10000
        + (0xD800 + (c.toNat - 0x10000) / 0x400 - 0xD800) * 0x400
        + (0xDC00 + (c.toNat - 0x10000) % 0x400 - 0xDC00) = c.toNat := by
      omega
    rw [List.cons_append, List.singleton_append, ofUnits?_pair, pairChar,
      high, low, pair, Char.ofNat_toNat]
    · simp only [isHighSurrogate, high, Bool.and_eq_true, decide_eq_true_eq]
      omega
    · simp only [isLowSurrogate, low, Bool.and_eq_true, decide_eq_true_eq]
      omega

/-- Reading the units of a text gives the text. -/
theorem ofUnits?_units (cs : List Char) : ofUnits? (units cs) = some cs := by
  induction cs with
  | nil =>
      rfl
  | cons c cs ih =>
      rw [units, List.flatMap_cons, ofUnits?_charUnits_append]
      change (ofUnits? (units cs)).map _ = _
      rw [ih]
      rfl

/-- A text is determined by its units. -/
theorem units_injective {a b : List Char} (h : units a = units b) :
    a = b := by
  have read : some a = some b := by
    rw [← ofUnits?_units a, ← ofUnits?_units b, h]
  exact Option.some.inj read

/-- A character is one unit with its number, or two surrogates. -/
theorem charUnits_cases (c : Char) :
    (∃ u, charUnits c = [u] ∧ u.toNat = c.toNat) ∨
      ∃ u v, charUnits c = [u, v] ∧ 0xD800 ≤ u.toNat ∧ 0xD800 ≤ v.toNat := by
  have range := toNat_lt_or_lt c
  unfold charUnits
  simp only
  split
  · rename_i basic
    refine .inl ⟨_, rfl, ?_⟩
    simp [Nat.mod_eq_of_lt basic]
  · refine .inr ⟨_, _, rfl, ?_, ?_⟩
    · rw [UInt16.toNat_ofNat']
      omega
    · rw [UInt16.toNat_ofNat']
      omega

/-- Only the character itself has a unit with its number. -/
theorem ne_of_mem_charUnits {c d : Char} {u : UInt16}
    (basic : d.toNat < 0xD800) (differs : c ≠ d) (member : u ∈ charUnits c) :
    u.toNat ≠ d.toNat := by
  intro same
  rcases charUnits_cases c with ⟨v, eq, number⟩ | ⟨v, w, eq, high, low⟩
  · rw [eq, List.mem_singleton] at member
    subst member
    apply differs
    rw [← Char.ofNat_toNat c, ← number, same, Char.ofNat_toNat]
  · simp only [eq, List.mem_cons, List.not_mem_nil, or_false] at member
    rcases member with rfl | rfl <;> omega

@[simp] theorem units_nil : units [] = [] := rfl

@[simp] theorem units_append (a b : List Char) :
    units (a ++ b) = units a ++ units b :=
  List.flatMap_append

section Pairs

variable {u v : UInt16} {us : List UInt16} {cs : List Char}

/-- Units in which every surrogate is half of a pair. -/
inductive Paired : List UInt16 → Prop
  | nil : Paired []
  | basic {u : UInt16} {us : List UInt16} (range : u < 0xD800 ∨ 0xDFFF < u)
      (rest : Paired us) : Paired (u :: us)
  | pair {u v : UInt16} {us : List UInt16} (high : 0xD800 ≤ u ∧ u ≤ 0xDBFF)
      (low : 0xDC00 ≤ v ∧ v ≤ 0xDFFF) (rest : Paired us) :
      Paired (u :: v :: us)

theorem isHighSurrogate_iff :
    isHighSurrogate u = true ↔ 0xD800 ≤ u ∧ u ≤ 0xDBFF := by
  rw [isHighSurrogate, Bool.and_eq_true, decide_eq_true_iff,
    decide_eq_true_iff, UInt16.le_iff_toNat_le, UInt16.le_iff_toNat_le]
  exact and_congr_right fun _ => Nat.lt_succ_iff

theorem isLowSurrogate_iff :
    isLowSurrogate u = true ↔ 0xDC00 ≤ u ∧ u ≤ 0xDFFF := by
  rw [isLowSurrogate, Bool.and_eq_true, decide_eq_true_iff,
    decide_eq_true_iff, UInt16.le_iff_toNat_le, UInt16.le_iff_toNat_le]
  exact and_congr_right fun _ => Nat.lt_succ_iff

theorem basic_iff :
    (isHighSurrogate u = false ∧ isLowSurrogate u = false) ↔
      u < 0xD800 ∨ 0xDFFF < u := by
  rw [← Bool.not_eq_true, ← Bool.not_eq_true, isHighSurrogate_iff,
    isLowSurrogate_iff]
  simp only [UInt16.le_iff_toNat_le, UInt16.lt_iff_toNat_lt]
  change ¬ (0xD800 ≤ _ ∧ _ ≤ 0xDBFF) ∧ ¬ (0xDC00 ≤ _ ∧ _ ≤ 0xDFFF) ↔
    _ < 0xD800 ∨ 0xDFFF < _
  omega

/-- A unit of the basic plane is that of the character with its number. -/
theorem charUnits_ofNat (basic : u < 0xD800 ∨ 0xDFFF < u) :
    charUnits (Char.ofNat u.toNat) = [u] := by
  have bound := u.toNat_lt
  rw [UInt16.lt_iff_toNat_lt, UInt16.lt_iff_toNat_lt] at basic
  change _ < 0xD800 ∨ 0xDFFF < _ at basic
  have number : (Char.ofNat u.toNat).toNat = u.toNat := by
    rw [Char.ofNat, dif_pos (by rw [Nat.isValidChar]; omega)]
    rfl
  rw [charUnits, number]
  rw [if_pos bound, UInt16.ofNat_toNat]

/-- The halves of a pair are those of the character that it stands for. -/
theorem charUnits_pairChar (high : 0xD800 ≤ u ∧ u ≤ 0xDBFF)
    (low : 0xDC00 ≤ v ∧ v ≤ 0xDFFF) :
    charUnits (pairChar u v) = [u, v] := by
  rw [UInt16.le_iff_toNat_le, UInt16.le_iff_toNat_le] at high low
  change 0xD800 ≤ _ ∧ _ ≤ 0xDBFF at high
  change 0xDC00 ≤ _ ∧ _ ≤ 0xDFFF at low
  have number : (pairChar u v).toNat =
      0x10000 + (u.toNat - 0xD800) * 0x400 + (v.toNat - 0xDC00) := by
    rw [pairChar, Char.ofNat, dif_pos (by rw [Nat.isValidChar]; omega)]
    rfl
  have first : 0xD800 + (0x10000 + (u.toNat - 0xD800) * 0x400
      + (v.toNat - 0xDC00) - 0x10000) / 0x400 = u.toNat := by omega
  have second : 0xDC00 + (0x10000 + (u.toNat - 0xD800) * 0x400
      + (v.toNat - 0xDC00) - 0x10000) % 0x400 = v.toNat := by omega
  rw [charUnits, number]
  rw [if_neg (by omega), first, second, UInt16.ofNat_toNat,
    UInt16.ofNat_toNat]

/-- Paired units are those of a text. -/
theorem Paired.exists_units (paired : Paired us) : ∃ cs, units cs = us := by
  induction paired with
  | nil =>
      exact ⟨[], rfl⟩
  | @basic u us range rest ih =>
      obtain ⟨cs, rfl⟩ := ih
      exact ⟨Char.ofNat u.toNat :: cs, by
        rw [units, List.flatMap_cons, charUnits_ofNat range]; rfl⟩
  | @pair u v us high low rest ih =>
      obtain ⟨cs, rfl⟩ := ih
      exact ⟨pairChar u v :: cs, by
        rw [units, List.flatMap_cons, charUnits_pairChar high low]; rfl⟩

/-- Units that are read as a text are paired. -/
theorem paired_of_ofUnits? (read : ofUnits? us = some cs) : Paired us := by
  induction us using ofUnits?.induct generalizing cs with
  | case1 =>
      exact .nil
  | case2 u surrogate =>
      rw [ofUnits?, if_pos surrogate] at read
      cases read
  | case3 u plain =>
      rw [Bool.or_eq_true, not_or, Bool.not_eq_true, Bool.not_eq_true] at plain
      exact .basic (basic_iff.mp plain) .nil
  | case4 u v us high low ih =>
      rw [ofUnits?_pair us high low, Option.map_eq_some_iff] at read
      obtain ⟨rest, behind, -⟩ := read
      exact .pair (isHighSurrogate_iff.mp high) (isLowSurrogate_iff.mp low)
        (ih behind)
  | case5 u v us high low =>
      rw [ofUnits?, if_pos high, if_neg low] at read
      cases read
  | case6 u v us high low =>
      rw [ofUnits?, if_neg high, if_pos low] at read
      cases read
  | case7 u v us high low ih =>
      rw [ofUnits?, if_neg high, if_neg low, Option.map_eq_some_iff] at read
      obtain ⟨rest, behind, -⟩ := read
      rw [Bool.not_eq_true] at high low
      exact .basic (basic_iff.mp ⟨high, low⟩) (ih behind)

/-- Units are read as the text whose units they are. -/
theorem ofUnits?_eq_some_iff : ofUnits? us = some cs ↔ units cs = us := by
  constructor
  · intro read
    obtain ⟨ds, rfl⟩ := (paired_of_ofUnits? read).exists_units
    rw [ofUnits?_units] at read
    rw [Option.some.inj read]
  · rintro rfl
    exact ofUnits?_units cs

theorem ofUnits?_eq_none_iff : ofUnits? us = none ↔ ¬ Paired us := by
  constructor
  · intro failed paired
    obtain ⟨cs, rfl⟩ := paired.exists_units
    rw [ofUnits?_units] at failed
    cases failed
  · intro unpaired
    cases read : ofUnits? us with
    | none => rfl
    | some cs => exact absurd (paired_of_ofUnits? read) unpaired

end Pairs

end Text
end NativeGlue
