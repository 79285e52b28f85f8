import NativeGlue.Code.Literal
import NativeGlue.Proofs.Text.Digits
import NativeGlue.Proofs.Text.ModifiedUtf8

/-!
# String literals carry modified UTF-8

A literal is read as C++ reads it: a printable character stands for itself, a
backslash with a quote, a backslash or a question mark behind it for that
character, and a backslash with octal digits behind it for the byte of this
number, where as many digits are taken as there are, up to three. Each unit of
a text is then read as its group of bytes, whatever follows it, since an octal
escape that is written has three digits. Literals put these bytes together from
the bits of the unit; they are those that modified UTF-8 computes.

Main statement: `stringLiteral_carries_encode`.
-/

namespace NativeGlue
namespace Code

open Text ModifiedUtf8

/-- Whether a character is a digit of an octal number. -/
def isOctal (c : Char) : Bool :=
  0x30 ≤ c.toNat && c.toNat ≤ 0x37

/-- The characters that stand for themselves behind a backslash. -/
def selfEscaped : List Char := ['"', '\\', '?']

/-- The octal digits in front: as many as there are, up to three. -/
def octalDigits (cs : List Char) : List Char :=
  (cs.take 3).takeWhile isOctal

/-- The byte of an escape behind its backslash, and what follows the escape. -/
def readEscape? (cs : List Char) : Option (UInt8 × List Char) :=
  match cs with
  | [] => none
  | c :: rest =>
      if c ∈ selfEscaped then
        some (UInt8.ofNat c.toNat, rest)
      else
        let number := octalDigits cs
        if number = [] ∨ 256 ≤ numeral 8 number then
          none
        else
          some (UInt8.ofNat (numeral 8 number), cs.drop number.length)

/-- A character of printable ASCII. -/
def IsPrintable (c : Char) : Prop := 0x20 ≤ c.toNat ∧ c.toNat ≤ 0x7E

instance (c : Char) : Decidable (IsPrintable c) :=
  inferInstanceAs (Decidable (_ ∧ _))

/-- The byte in front inside a literal, and what follows it. -/
def readByte? : List Char → Option (UInt8 × List Char)
  | [] => none
  | c :: rest =>
      if c = '\\' then
        readEscape? rest
      else if IsPrintable c ∧ c ≠ '"' then
        some (UInt8.ofNat c.toNat, rest)
      else
        none

/-- An escape takes at least one character. -/
theorem length_lt_of_readEscape? {cs rest : List Char} {b : UInt8}
    (read : readEscape? cs = some (b, rest)) : rest.length < cs.length := by
  unfold readEscape? at read
  split at read
  · cases read
  · rename_i c behind
    split at read
    · cases read
      exact Nat.lt_succ_self _
    · simp only [Option.ite_none_left_eq_some, Option.some.injEq,
        Prod.mk.injEq, not_or] at read
      obtain ⟨⟨some, -⟩, -, rfl⟩ := read
      have taken := List.length_pos_iff.mpr some
      rw [List.length_drop, List.length_cons]
      omega

theorem length_lt_of_readByte? {cs rest : List Char} {b : UInt8}
    (read : readByte? cs = some (b, rest)) : rest.length < cs.length := by
  unfold readByte? at read
  split at read
  · cases read
  · split at read
    · exact (length_lt_of_readEscape? read).trans (Nat.lt_succ_self _)
    · split at read
      · cases read
        exact Nat.lt_succ_self _
      · cases read

/-- The bytes of a literal behind its opening quote. -/
def bytesInside? (cs : List Char) : Option (List UInt8) :=
  if cs = ['"'] then
    some []
  else
    match h : readByte? cs with
    | none => none
    | some (b, rest) =>
        have := length_lt_of_readByte? h
        (bytesInside? rest).map (b :: ·)
termination_by cs.length
decreasing_by exact this

/-- The bytes that a literal stands for, quotes included in its text. -/
def literalBytes? (literal : String) : Option (List UInt8) :=
  match literal.toList with
  | '"' :: cs => bytesInside? cs
  | _ => none

/-- The characters with no backslash that escapes them. -/
def unescaped : List Char → List Char
  | [] => []
  | [c] => [c]
  | c :: d :: cs =>
      if c = '\\' then unescaped cs else c :: unescaped (d :: cs)

theorem unescaped_backslash (c : Char) (cs : List Char) :
    unescaped ('\\' :: c :: cs) = unescaped cs := by
  rw [unescaped, if_pos rfl]

theorem unescaped_cons {c : Char} (other : c ≠ '\\') (cs : List Char) :
    unescaped (c :: cs) = c :: unescaped cs := by
  cases cs with
  | nil => rfl
  | cons d cs => rw [unescaped, if_neg other]

/-- A printable character that needs no escape. -/
structure IsPlain (c : Char) : Prop where
  printable : IsPrintable c
  notSpecial : c ∉ selfEscaped

section Units

variable {u : UInt16} {b : UInt8} {c : Char} {cs rest : List Char}

theorem IsPlain.ne_backslash (plain : IsPlain c) : c ≠ '\\' := by
  rintro rfl
  exact plain.notSpecial (by decide)

theorem IsPlain.ne_quote (plain : IsPlain c) : c ≠ '"' := by
  rintro rfl
  exact plain.notSpecial (by decide)

theorem isPlain_digit : ∀ k < 8, IsPlain (digit k) := by
  have each : ∀ k < 8, IsPrintable (digit k) ∧ digit k ∉ selfEscaped := by
    decide
  exact fun k small => ⟨(each k small).1, (each k small).2⟩

theorem isOctal_digit : ∀ k < 8, isOctal (digit k) = true := by
  decide

/-- An octal escape has three digits behind its backslash. -/
theorem exists_octalEscape_eq (b : UInt8) :
    ∃ i < 8, ∃ j < 8, ∃ k < 8,
      octalEscape b = ['\\', digit i, digit j, digit k] ∧
        numeral 8 [digit i, digit j, digit k] = b.toNat := by
  have bound := b.toNat_lt
  have value : numeral 8 (digits 8 3 b.toNat) = b.toNat := by
    rw [numeral_digits (by decide) (by decide), Nat.mod_eq_of_lt (by omega)]
  have three : digits 8 3 b.toNat = [digit (b.toNat / 8 / 8 % 8),
      digit (b.toNat / 8 % 8), digit (b.toNat % 8)] := rfl
  rw [three] at value
  exact ⟨_, Nat.mod_lt _ (by decide), _, Nat.mod_lt _ (by decide), _,
    Nat.mod_lt _ (by decide), by rw [octalEscape, three], value⟩

theorem markedByte_eq {mark : UInt8} {bits : UInt16} (width high : Nat)
    (front : mark.toNat = 2 ^ width * high)
    (small : bits.toNat < 2 ^ width) (byte : bits.toNat < 256) :
    markedByte mark bits = UInt8.ofNat (mark.toNat + bits.toNat) := by
  have sum : (markedByte mark bits).toNat = mark.toNat + bits.toNat := by
    rw [markedByte, UInt8.toNat_or, UInt16.toNat_toUInt8,
      Nat.mod_eq_of_lt byte, front, ← Nat.two_pow_add_eq_or_of_lt small]
  rw [← sum, UInt8.ofNat_toNat]

theorem markedByte_lowBits (u : UInt16) :
    markedByte 0x80 (u &&& 0x3F) = UInt8.ofNat (0x80 + u.toNat % 64) := by
  have bits : (u &&& 0x3F).toNat = u.toNat % 64 := by
    rw [UInt16.toNat_and]
    exact Nat.and_two_pow_sub_one_eq_mod _ 6
  rw [markedByte_eq 6 2 rfl (by omega) (by omega), bits]
  rfl

/-- Bits put together are the bytes that modified UTF-8 computes. -/
theorem unitBytes_eq_encodeUnit (u : UInt16) : unitBytes u = encodeUnit u := by
  have bound := u.toNat_lt
  have one : 0x0001 ≤ u ∧ u ≤ 0x007F ↔ u.toNat ≠ 0 ∧ u.toNat < 0x80 := by
    rw [UInt16.le_iff_toNat_le, UInt16.le_iff_toNat_le]
    change 1 ≤ _ ∧ _ ≤ 127 ↔ _
    omega
  have two : u ≤ 0x07FF ↔ u.toNat < 0x800 := by
    rw [UInt16.le_iff_toNat_le]
    exact Nat.lt_succ_iff.symm
  have six : (u >>> 6).toNat = u.toNat / 64 :=
    (UInt16.toNat_shiftRight u 6).trans (Nat.shiftRight_eq_div_pow _ 6)
  have twelve : (u >>> 12).toNat = u.toNat / 4096 :=
    (UInt16.toNat_shiftRight u 12).trans (Nat.shiftRight_eq_div_pow _ 12)
  rw [unitBytes, encodeUnit]
  simp only [one, two]
  split
  · rfl
  · split
    · rw [markedByte_lowBits, markedByte_eq 5 6 rfl (by omega) (by omega), six]
      rfl
    · rw [markedByte_lowBits, markedByte_lowBits, six,
        markedByte_eq 4 14 rfl (by omega) (by omega), twelve]
      rfl

/--
A unit is written as an escape of itself, as itself, or as an octal escape
for each of its bytes.
-/
theorem literalUnit_cases (u : UInt16) :
    (∃ c ∈ selfEscaped, literalUnit u = ['\\', c] ∧
      encodeUnit u = [UInt8.ofNat c.toNat]) ∨
    (∃ c, IsPlain c ∧ literalUnit u = [c] ∧
      encodeUnit u = [UInt8.ofNat c.toNat]) ∨
    literalUnit u = (encodeUnit u).flatMap octalEscape := by
  by_cases special : u = 0x22 ∨ u = 0x5C ∨ u = 0x3F
  · refine .inl ?_
    rcases special with rfl | rfl | rfl
    · exact ⟨'"', by decide, rfl, rfl⟩
    · exact ⟨'\\', by decide, rfl, rfl⟩
    · exact ⟨'?', by decide, rfl, rfl⟩
  · by_cases printable : 0x20 ≤ u.toNat ∧ u.toNat ≤ 0x7E
    · have number : (Char.ofNat u.toNat).toNat = u.toNat := by
        rw [Char.ofNat, dif_pos (.inl (by omega))]
        rfl
      refine .inr (.inl ⟨Char.ofNat u.toNat, ⟨?_, ?_⟩, ?_, ?_⟩)
      · rw [IsPrintable, number]
        exact printable
      · intro member
        apply special
        rw [selfEscaped] at member
        simp only [List.mem_cons, List.not_mem_nil, or_false,
          ← Char.toNat_inj, number] at member
        simp only [← UInt16.toNat_inj]
        exact member
      · rw [literalUnit, if_neg special, if_pos printable]
      · rw [encodeUnit, number]
        exact if_pos (by omega)
    · refine .inr (.inr ?_)
      rw [literalUnit, if_neg special, if_neg printable,
        unitBytes_eq_encodeUnit]

theorem bytesInside?_of_readByte? (read : readByte? cs = some (b, rest)) :
    bytesInside? cs = (bytesInside? rest).map (b :: ·) := by
  have more : cs ≠ ['"'] := by
    rintro rfl
    cases read
  rw [bytesInside?, if_neg more]
  split
  · rename_i failed
    rw [failed] at read
    cases read
  · rename_i found
    rw [found] at read
    cases read
    rfl

theorem readByte?_selfEscaped (special : c ∈ selfEscaped) :
    readByte? ('\\' :: c :: cs) = some (UInt8.ofNat c.toNat, cs) := by
  rw [readByte?, if_pos rfl, readEscape?, if_pos special]

theorem readByte?_of_isPlain (plain : IsPlain c) :
    readByte? (c :: cs) = some (UInt8.ofNat c.toNat, cs) := by
  rw [readByte?, if_neg plain.ne_backslash,
    if_pos ⟨plain.printable, plain.ne_quote⟩]

/-- No digit behind an octal escape is taken into it. -/
theorem readByte?_octalEscape (b : UInt8) (cs : List Char) :
    readByte? (octalEscape b ++ cs) = some (b, cs) := by
  obtain ⟨i, hi, j, hj, k, hk, eq, value⟩ := exists_octalEscape_eq b
  have three : octalDigits (digit i :: digit j :: digit k :: cs) =
      [digit i, digit j, digit k] := by
    simp [octalDigits, isOctal_digit, hi, hj, hk]
  have small : ¬ 256 ≤ b.toNat := Nat.not_le.mpr b.toNat_lt
  rw [eq, List.cons_append, readByte?, if_pos rfl, List.cons_append,
    List.cons_append, List.cons_append, List.nil_append, readEscape?,
    if_neg (isPlain_digit i hi).notSpecial]
  simp [three, value, small]

theorem bytesInside?_octalEscapes (bytes : List UInt8) (cs : List Char) :
    bytesInside? (bytes.flatMap octalEscape ++ cs) =
      (bytesInside? cs).map (bytes ++ ·) := by
  induction bytes with
  | nil => simp
  | cons b bytes ih =>
      rw [List.flatMap_cons, List.append_assoc,
        bytesInside?_of_readByte? (readByte?_octalEscape b _), ih,
        Option.map_map]
      rfl

/-- A unit in front is read as its bytes. -/
theorem bytesInside?_literalUnit_append (u : UInt16) (cs : List Char) :
    bytesInside? (literalUnit u ++ cs) =
      (bytesInside? cs).map (encodeUnit u ++ ·) := by
  rcases literalUnit_cases u with
    ⟨c, special, eq, one⟩ | ⟨c, plain, eq, one⟩ | eq
  · rw [eq, one]
    exact bytesInside?_of_readByte? (readByte?_selfEscaped special)
  · rw [eq, one]
    exact bytesInside?_of_readByte? (readByte?_of_isPlain plain)
  · rw [eq, bytesInside?_octalEscapes]

theorem bytesInside?_literalUnits (us : List UInt16) :
    bytesInside? (us.flatMap literalUnit ++ ['"']) =
      some (us.flatMap encodeUnit) := by
  induction us with
  | nil =>
      rw [List.flatMap_nil, List.nil_append, bytesInside?, if_pos rfl]
      rfl
  | cons u us ih =>
      rw [List.flatMap_cons, List.append_assoc,
        bytesInside?_literalUnit_append, ih]
      rfl

theorem isPrintable_of_mem_octalEscape (member : c ∈ octalEscape b) :
    IsPrintable c := by
  obtain ⟨i, hi, j, hj, k, hk, eq, -⟩ := exists_octalEscape_eq b
  rw [eq] at member
  simp only [List.mem_cons, List.not_mem_nil, or_false] at member
  rcases member with rfl | rfl | rfl | rfl
  · decide
  · exact (isPlain_digit i hi).printable
  · exact (isPlain_digit j hj).printable
  · exact (isPlain_digit k hk).printable

theorem isPrintable_of_mem_selfEscaped (special : c ∈ selfEscaped) :
    IsPrintable c := by
  simp only [selfEscaped, List.mem_cons, List.not_mem_nil, or_false] at special
  rcases special with rfl | rfl | rfl <;> decide

/-- Only printable characters are written. -/
theorem isPrintable_of_mem_literalUnit (member : c ∈ literalUnit u) :
    IsPrintable c := by
  rcases literalUnit_cases u with
    ⟨d, special, eq, -⟩ | ⟨d, plain, eq, -⟩ | eq
  · rw [eq, List.mem_cons, List.mem_singleton] at member
    rcases member with rfl | rfl
    · decide
    · exact isPrintable_of_mem_selfEscaped special
  · rw [eq, List.mem_singleton] at member
    exact member ▸ plain.printable
  · rw [eq, List.mem_flatMap] at member
    obtain ⟨b, -, inside⟩ := member
    exact isPrintable_of_mem_octalEscape inside

theorem isPlain_of_mem_unescaped_octalEscapes (bytes : List UInt8)
    (behind : ∀ c ∈ unescaped cs, IsPlain c) :
    ∀ c ∈ unescaped (bytes.flatMap octalEscape ++ cs), IsPlain c := by
  induction bytes with
  | nil => exact behind
  | cons b bytes ih =>
      obtain ⟨i, hi, j, hj, k, hk, eq, -⟩ := exists_octalEscape_eq b
      -- the backslash takes the first digit, the other two stand alone
      rw [List.flatMap_cons, List.append_assoc, eq, List.cons_append,
        List.cons_append, List.cons_append, List.cons_append,
        List.nil_append, unescaped_backslash,
        unescaped_cons (isPlain_digit j hj).ne_backslash,
        unescaped_cons (isPlain_digit k hk).ne_backslash,
        List.forall_mem_cons, List.forall_mem_cons]
      exact ⟨isPlain_digit j hj, isPlain_digit k hk, ih⟩

/-- What stands without a backslash needs none. -/
theorem isPlain_of_mem_unescaped (us : List UInt16) :
    ∀ c ∈ unescaped (us.flatMap literalUnit), IsPlain c := by
  induction us with
  | nil => simp [unescaped]
  | cons u us ih =>
      rw [List.flatMap_cons]
      rcases literalUnit_cases u with
        ⟨c, special, eq, -⟩ | ⟨c, plain, eq, -⟩ | eq
      · rw [eq, List.cons_append, List.cons_append, List.nil_append,
          unescaped_backslash]
        exact ih
      · rw [eq, List.singleton_append, unescaped_cons plain.ne_backslash,
          List.forall_mem_cons]
        exact ⟨plain, ih⟩
      · rw [eq]
        exact isPlain_of_mem_unescaped_octalEscapes _ ih

end Units

theorem toList_stringLiteral (text : String) :
    (stringLiteral text).toList =
      '"' :: ((units text.toList).flatMap literalUnit ++ ['"']) := by
  rw [stringLiteral, String.toList_ofList]

/-- A literal stands for its text in modified UTF-8. -/
theorem literalBytes?_stringLiteral (text : String) :
    literalBytes? (stringLiteral text) = some (encode text) := by
  rw [literalBytes?, toList_stringLiteral]
  exact bytesInside?_literalUnits (units text.toList)

/--
A literal stands between quotes. Inside there is only printable ASCII, and no
quote, backslash or question mark is without a backslash that escapes it. The
bytes that it stands for are its text in modified UTF-8, from which the text is
decoded, and so no two texts have the same literal.
-/
theorem stringLiteral_carries_encode :
    (∀ text, ∃ inside,
      (stringLiteral text).toList = '"' :: (inside ++ ['"']) ∧
      (∀ c ∈ inside, 0x20 ≤ c.toNat ∧ c.toNat ≤ 0x7E) ∧
      '"' ∉ unescaped inside ∧ '?' ∉ unescaped inside ∧
      '\\' ∉ unescaped inside ∧
      ∃ bytes, literalBytes? (stringLiteral text) = some bytes ∧
        bytes = encode text ∧ ∀ start, decode start bytes = .ok text) ∧
    Function.Injective stringLiteral := by
  constructor
  · intro text
    have plain := isPlain_of_mem_unescaped (units text.toList)
    refine ⟨_, toList_stringLiteral text, fun c member => ?_, ?_, ?_, ?_,
      encode text, literalBytes?_stringLiteral text, rfl,
      fun start => decode_encode start text⟩
    · obtain ⟨u, -, written⟩ := List.mem_flatMap.mp member
      exact isPrintable_of_mem_literalUnit written
    · exact fun member => (plain _ member).notSpecial (by decide)
    · exact fun member => (plain _ member).notSpecial (by decide)
    · exact fun member => (plain _ member).notSpecial (by decide)
  · intro a b same
    have bytes : some (encode a) = some (encode b) := by
      rw [← literalBytes?_stringLiteral, same, literalBytes?_stringLiteral]
    have decoded := decode_encode 0 a
    rw [Option.some.inj bytes, decode_encode] at decoded
    exact (Except.ok.inj decoded).symm

end Code
end NativeGlue
