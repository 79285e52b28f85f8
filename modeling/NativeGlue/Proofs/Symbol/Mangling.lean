import NativeGlue.Code.Identifier
import NativeGlue.Symbol.Mangling
import NativeGlue.Proofs.Text.Digits
import NativeGlue.Proofs.Text.Separators
import NativeGlue.Proofs.Text.Utf16

/-!
# Reading mangled names back

A mangled text can be read back if it has no `.`, which is mangled like `/`,
and if no `/` stands before one of the digits that open an escape after `_`.
So mangling tells such texts apart.

A text without `/` and `.` is mangled to one in which every `_` opens an
escape. There `_` is never followed by another, so that what `__` divides can
be divided again. Any text is mangled to characters of identifiers.

Main statement: `mangle_identifies`.
-/

namespace NativeGlue
namespace Symbol

open Text

/-- The digits that make an escape of an underscore before them. -/
def isEscapeDigit (c : Char) : Bool :=
  '0' ≤ c && c ≤ '3'

/-- The mangled form of some characters. -/
def mangleChars (cs : List Char) : List Char :=
  (units cs).flatMap mangleUnit

/-- The units that some characters are the mangled form of. -/
def unmangle : List Char → List UInt16
  | [] => []
  | '_' :: '1' :: cs => 0x5F :: unmangle cs
  | '_' :: '2' :: cs => 0x3B :: unmangle cs
  | '_' :: '3' :: cs => 0x5B :: unmangle cs
  | '_' :: '0' :: a :: b :: c :: d :: cs =>
      UInt16.ofNat (numeral 16 [a, b, c, d]) :: unmangle cs
  | '_' :: cs => 0x2F :: unmangle cs
  | c :: cs => UInt16.ofNat c.toNat :: unmangle cs

/-- A text that does not start with a digit that makes an escape. -/
def OpensPlainly (cs : List Char) : Prop :=
  ∀ c ∈ cs.head?, isEscapeDigit c = false

instance decidableOpensPlainly : (cs : List Char) →
    Decidable (OpensPlainly cs)
  | [] => .isTrue fun _ member => nomatch member
  | c :: _ =>
      decidable_of_iff (isEscapeDigit c = false)
        ⟨fun plain _ member => Option.some.inj member ▸ plain,
          fun plain => plain c rfl⟩

/-- A text that its mangled form tells. -/
structure Readable (cs : List Char) : Prop where
  noDot : '.' ∉ cs
  plain : cs.IsChain fun a b => a = '/' → isEscapeDigit b = false

@[simp] theorem toList_mangle (part : String) :
    (mangle part).toList = mangleChars part.toList := by
  rw [mangle, String.toList_ofList]
  rfl

@[simp] theorem mangleChars_append (a b : List Char) :
    mangleChars (a ++ b) = mangleChars a ++ mangleChars b := by
  simp [mangleChars]

section Units

/-- A letter or digit is its own character. -/
theorem toNat_ofNat_of_isPlain {u : UInt16} (plain : isPlain u = true) :
    (Char.ofNat u.toNat).toNat = u.toNat := by
  have small : u.toNat < 0xD800 := by
    simp only [isPlain, Bool.or_eq_true, Bool.and_eq_true,
      decide_eq_true_eq] at plain
    omega
  rw [Char.ofNat, dif_pos (.inl small)]
  rfl

/-- What a unit is mangled to, by cases. -/
theorem mangleUnit_cases (u : UInt16) :
    ((u = 0x2F ∨ u = 0x2E) ∧ mangleUnit u = ['_']) ∨
      (u = 0x5F ∧ mangleUnit u = ['_', '1']) ∨
      (u = 0x3B ∧ mangleUnit u = ['_', '2']) ∨
      (u = 0x5B ∧ mangleUnit u = ['_', '3']) ∨
      (isPlain u = true ∧ mangleUnit u = [Char.ofNat u.toNat]) ∨
      mangleUnit u = '_' :: '0' :: digits 16 4 u.toNat := by
  unfold mangleUnit
  split_ifs <;> simp_all

theorem unmangle_cons {c : Char} (other : c ≠ '_') (cs : List Char) :
    unmangle (c :: cs) = UInt16.ofNat c.toNat :: unmangle cs := by
  rw [unmangle] <;> simp_all

/-- An underscore that opens no escape is read as a separator. -/
theorem unmangle_underscore {cs : List Char} (plain : OpensPlainly cs) :
    unmangle ('_' :: cs) = 0x2F :: unmangle cs := by
  cases cs with
  | nil =>
      rfl
  | cons c cs =>
      have noEscape : isEscapeDigit c = false := plain c rfl
      rw [unmangle]
      all_goals
        intros
        simp_all [isEscapeDigit]

/-- An escape with four digits is read as the unit with that number. -/
theorem unmangle_digits (u : UInt16) (cs : List Char) :
    unmangle ('_' :: '0' :: (digits 16 4 u.toNat ++ cs)) =
      u :: unmangle cs := by
  have value : numeral 16 (digits 16 4 u.toNat) = u.toNat := by
    rw [numeral_digits (by decide) (by decide)]
    exact Nat.mod_eq_of_lt u.toNat_lt
  have length := length_digits 16 4 u.toNat
  match four : digits 16 4 u.toNat, length with
  | [a, b, c, d], _ =>
      rw [four] at value
      change UInt16.ofNat (numeral 16 [a, b, c, d]) :: unmangle cs = _
      rw [value, UInt16.ofNat_toNat]

/-- A unit is read back; a separator only before what opens no escape. -/
theorem unmangle_mangleUnit_append {u : UInt16} {cs : List Char}
    (noDot : u ≠ 0x2E) (plain : u = 0x2F → OpensPlainly cs) :
    unmangle (mangleUnit u ++ cs) = u :: unmangle cs := by
  rcases mangleUnit_cases u with
    ⟨rfl | rfl, eq⟩ | ⟨rfl, eq⟩ | ⟨rfl, eq⟩ | ⟨rfl, eq⟩ | ⟨letter, eq⟩ | eq
  · rw [eq, List.singleton_append, unmangle_underscore (plain rfl)]
  · exact absurd rfl noDot
  · rw [eq]
    rfl
  · rw [eq]
    rfl
  · rw [eq]
    rfl
  · have toNat := toNat_ofNat_of_isPlain letter
    have other : Char.ofNat u.toNat ≠ '_' := by
      intro underscore
      rw [underscore] at toNat
      simp only [isPlain, ← toNat] at letter
      revert letter
      decide
    rw [eq, List.singleton_append, unmangle_cons other, toNat,
      UInt16.ofNat_toNat]
  · rw [eq, List.cons_append, List.cons_append, unmangle_digits]

theorem unmangle_flatMap_append {us : List UInt16}
    (clear : ∀ u ∈ us, u ≠ 0x2F ∧ u ≠ 0x2E) (cs : List Char) :
    unmangle (us.flatMap mangleUnit ++ cs) = us ++ unmangle cs := by
  induction us with
  | nil =>
      rfl
  | cons u us ih =>
      rw [List.forall_mem_cons] at clear
      rw [List.flatMap_cons, List.append_assoc,
        unmangle_mangleUnit_append clear.1.2
          (fun slash => absurd slash clear.1.1), ih clear.2]
      rfl

/-- A unit that is no separator puts no two underscores together. -/
theorem single_mangleUnit_append {u : UInt16} {cs : List Char}
    (noSlash : u ≠ 0x2F) (noDot : u ≠ 0x2E) (single : Single '_' cs) :
    Single '_' (mangleUnit u ++ cs) := by
  have escape : ∀ (c : Char) (ds : List Char), c ≠ '_' → '_' ∉ ds →
      Single '_' ('_' :: c :: (ds ++ cs)) := by
    intro c ds other clear
    have behind := single.append_left (f := c :: ds) (by
      simp [other.symm, clear])
    exact behind.cons_sep other
  rcases mangleUnit_cases u with
    ⟨rfl | rfl, -⟩ | ⟨-, eq⟩ | ⟨-, eq⟩ | ⟨-, eq⟩ | ⟨letter, eq⟩ | eq
  · exact absurd rfl noSlash
  · exact absurd rfl noDot
  · rw [eq]
    exact escape '1' [] (by decide) (by simp)
  · rw [eq]
    exact escape '2' [] (by decide) (by simp)
  · rw [eq]
    exact escape '3' [] (by decide) (by simp)
  · rw [eq]
    refine single.append_left ?_
    intro member
    have toNat := toNat_ofNat_of_isPlain letter
    rw [← List.mem_singleton.mp member] at toNat
    simp only [isPlain, ← toNat] at letter
    revert letter
    decide
  · rw [eq]
    exact escape '0' _ (by decide)
      (underscore_not_mem_digits (by decide) (by decide) 4 u.toNat)

theorem single_flatMap_append {us : List UInt16} {cs : List Char}
    (clear : ∀ u ∈ us, u ≠ 0x2F ∧ u ≠ 0x2E) (single : Single '_' cs) :
    Single '_' (us.flatMap mangleUnit ++ cs) := by
  induction us with
  | nil =>
      exact single
  | cons u us ih =>
      rw [List.forall_mem_cons] at clear
      rw [List.flatMap_cons, List.append_assoc]
      exact single_mangleUnit_append clear.1.1 clear.1.2 (ih clear.2)

end Units

section Texts

theorem mangleChars_cons (c : Char) (cs : List Char) :
    mangleChars (c :: cs) =
      (charUnits c).flatMap mangleUnit ++ mangleChars cs := by
  simp [mangleChars, units]

/-- A mangled text starts with an escape digit only if the text does. -/
theorem OpensPlainly.mangleChars {cs : List Char}
    (plain : OpensPlainly cs) : OpensPlainly (mangleChars cs) := by
  cases cs with
  | nil =>
      exact plain
  | cons c cs =>
      have noEscape : isEscapeDigit c = false := plain c rfl
      have first : ∀ (u : UInt16) (rest : List Char),
          (u.toNat = c.toNat ∨ 0xD800 ≤ u.toNat) →
          OpensPlainly (mangleUnit u ++ rest) := by
        intro u rest number d member
        rcases mangleUnit_cases u with
          ⟨-, eq⟩ | ⟨-, eq⟩ | ⟨-, eq⟩ | ⟨-, eq⟩ | ⟨letter, eq⟩ | eq
        case inr.inr.inr.inr.inl =>
          have same : u.toNat = c.toNat := by
            simp only [isPlain, Bool.or_eq_true, Bool.and_eq_true,
              decide_eq_true_eq] at letter
            omega
          rw [eq, same, Char.ofNat_toNat] at member
          obtain rfl := Option.some.inj member
          exact noEscape
        all_goals
          rw [eq] at member
          obtain rfl := Option.some.inj member
          rfl
      rcases charUnits_cases c with ⟨u, eq, number⟩ | ⟨u, v, eq, high, -⟩
      · rw [mangleChars_cons, eq, List.flatMap_singleton]
        exact first u _ (.inl number)
      · rw [mangleChars_cons, eq, List.flatMap_cons, List.append_assoc]
        exact first u _ (.inr high)

theorem ne_of_mem_charUnits_of_ne {c : Char} (noSlash : c ≠ '/')
    (noDot : c ≠ '.') {u : UInt16} (member : u ∈ charUnits c) :
    u ≠ 0x2F ∧ u ≠ 0x2E := by
  constructor
  · rintro rfl
    exact ne_of_mem_charUnits (by decide) noSlash member rfl
  · rintro rfl
    exact ne_of_mem_charUnits (by decide) noDot member rfl

/-- A readable text is read back from its mangled form. -/
theorem unmangle_mangleChars {cs : List Char} (readable : Readable cs) :
    unmangle (mangleChars cs) = units cs := by
  obtain ⟨noDot, plain⟩ := readable
  induction cs with
  | nil =>
      rfl
  | cons c cs ih =>
      simp only [List.mem_cons, not_or] at noDot
      obtain ⟨behind, plain⟩ := List.isChain_cons.mp plain
      have rest := ih noDot.2 plain
      by_cases slash : c = '/'
      · subst slash
        have opens : OpensPlainly cs := fun d member =>
          behind d member rfl
        calc
          unmangle (mangleChars ('/' :: cs)) =
              unmangle (mangleUnit 0x2F ++ mangleChars cs) := rfl
          _ = 0x2F :: unmangle (mangleChars cs) :=
              unmangle_mangleUnit_append (by decide)
                fun _ => opens.mangleChars
          _ = units ('/' :: cs) := by
              rw [rest]
              rfl
      · rw [mangleChars_cons, unmangle_flatMap_append, rest]
        · rfl
        · intro u member
          exact ne_of_mem_charUnits_of_ne slash (Ne.symm noDot.1) member

/-- Readable texts with the same mangled form are the same. -/
theorem mangleChars_inj {a b : List Char} (left : Readable a)
    (right : Readable b) (eq : mangleChars a = mangleChars b) : a = b := by
  apply units_injective
  rw [← unmangle_mangleChars left, ← unmangle_mangleChars right, eq]

/-- A text without separators is mangled to one without `__`. -/
theorem single_mangleChars {cs : List Char} (noSlash : '/' ∉ cs)
    (noDot : '.' ∉ cs) : Single '_' (mangleChars cs) := by
  have clear : ∀ u ∈ units cs, u ≠ 0x2F ∧ u ≠ 0x2E := by
    intro u member
    obtain ⟨c, inside, unit⟩ := List.mem_flatMap.mp member
    exact ne_of_mem_charUnits_of_ne (ne_of_mem_of_not_mem inside noSlash)
      (ne_of_mem_of_not_mem inside noDot) unit
  have single := single_flatMap_append clear (single_nil '_')
  rwa [List.append_nil] at single

end Texts

section Identifiers

theorem isIdentifierChar_of_isPlain {u : UInt16} (plain : isPlain u = true) :
    Code.isIdentifierChar (Char.ofNat u.toNat) = true := by
  have letter : ∀ n < 123,
      48 ≤ n ∧ n ≤ 57 ∨ 65 ≤ n ∧ n ≤ 90 ∨ 97 ≤ n ∧ n ≤ 122 →
        Code.isIdentifierChar (Char.ofNat n) = true := by
    decide
  simp only [isPlain, Bool.or_eq_true, Bool.and_eq_true,
    decide_eq_true_eq] at plain
  exact letter u.toNat (by omega) (by omega)

theorem isIdentifierChar_of_mem_mangleUnit {u : UInt16} :
    ∀ c ∈ mangleUnit u, Code.isIdentifierChar c = true := by
  have digit : ∀ k < 16, Code.isIdentifierChar (digit k) = true := by
    decide
  have escape : ∀ e, Code.isIdentifierChar e = true →
      ∀ c ∈ ['_', e], Code.isIdentifierChar c = true := by
    intro e letter
    exact List.forall_mem_cons.mpr
      ⟨rfl, List.forall_mem_singleton.mpr letter⟩
  rcases mangleUnit_cases u with
    ⟨-, eq⟩ | ⟨-, eq⟩ | ⟨-, eq⟩ | ⟨-, eq⟩ | ⟨plain, eq⟩ | eq
  · rw [eq, List.forall_mem_singleton]
    rfl
  · rw [eq]
    exact escape '1' rfl
  · rw [eq]
    exact escape '2' rfl
  · rw [eq]
    exact escape '3' rfl
  · rw [eq, List.forall_mem_singleton]
    exact isIdentifierChar_of_isPlain plain
  · rw [eq, List.forall_mem_cons, List.forall_mem_cons]
    refine ⟨rfl, rfl, fun c member => ?_⟩
    obtain ⟨k, small, rfl⟩ := exists_of_mem_digits (by decide) member
    exact digit k small

/-- A mangled text is made of characters of identifiers. -/
theorem isIdentifierChar_of_mem_mangleChars {cs : List Char} {c : Char}
    (member : c ∈ mangleChars cs) : Code.isIdentifierChar c = true := by
  obtain ⟨u, -, inside⟩ := List.mem_flatMap.mp member
  exact isIdentifierChar_of_mem_mangleUnit c inside

end Identifiers

/--
Any text is mangled to letters, digits and underscores, and readable texts are
mangled to the same only if they are the same.
-/
theorem mangle_identifies (a : String) :
    (∀ c ∈ (mangle a).toList, Code.isIdentifierChar c = true) ∧
      ∀ b : String, Readable a.toList → Readable b.toList →
        (mangle a = mangle b ↔ a = b) := by
  constructor
  · intro c member
    rw [toList_mangle] at member
    exact isIdentifierChar_of_mem_mangleChars member
  · intro b left right
    refine ⟨fun eq => ?_, fun eq => congrArg mangle eq⟩
    have texts : mangleChars a.toList = mangleChars b.toList := by
      rw [← toList_mangle, ← toList_mangle, eq]
    exact String.toList_inj.mp (mangleChars_inj left right texts)

/-- An escape that stands before a separator is told from one after it. -/
theorem mangle_identifies_moved_separator :
    Readable "a/B_/😀;[$".toList ∧ Readable "a/B/_😀;[$".toList ∧
      (mangle "a/B_/😀;[$").toList.all Code.isIdentifierChar = true ∧
      mangle "a/B_/😀;[$" ≠ mangle "a/B/_😀;[$" := by
  have left : Readable "a/B_/😀;[$".toList := ⟨by decide, by decide⟩
  have right : Readable "a/B/_😀;[$".toList := ⟨by decide, by decide⟩
  obtain ⟨plain, apart⟩ := mangle_identifies "a/B_/😀;[$"
  refine ⟨left, right, List.all_eq_true.mpr plain, fun eq => ?_⟩
  exact absurd ((apart "a/B/_😀;[$" left right).mp eq) (by decide)

/-- Before a digit, a separator may read like an escape. -/
example : mangle "a/1" = mangle "a_" ∧ ¬ Readable "a/1".toList :=
  ⟨by decide, fun readable => absurd readable.plain (by decide)⟩

end Symbol
end NativeGlue
