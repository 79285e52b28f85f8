import NativeGlue.Text.Digits
import Mathlib.Data.Nat.Basic
import Mathlib.Tactic.Ring

/-!
# Reading numerals back

`digits` keeps the last digits of a number. Read as a numeral they give the
number again, up to the power of the base that the width leaves room for.
-/

namespace NativeGlue
namespace Text

/-- The number that a digit stands for. -/
def digitValue (c : Char) : Nat :=
  if c.toNat < 58 then c.toNat - 48 else c.toNat - 87

/-- The number that a numeral stands for. -/
def numeral (base : Nat) (cs : List Char) : Nat :=
  cs.foldl (fun n c => n * base + digitValue c) 0

theorem digitValue_digit : ∀ n < 16, digitValue (digit n) = n := by
  decide

theorem underscore_not_mem_digits {base : Nat} (positive : 0 < base)
    (small : base ≤ 16) (width n : Nat) :
    '_' ∉ digits base width n := by
  have other : ∀ k < 16, digit k ≠ '_' := by decide
  induction width generalizing n with
  | zero =>
      simp [digits]
  | succ width ih =>
      have last : n % base < 16 :=
        (Nat.mod_lt n positive).trans_le small
      simp [digits, ih, (other _ last).symm]

theorem exists_of_mem_digits {base : Nat} (positive : 0 < base)
    {width n : Nat} {c : Char} (member : c ∈ digits base width n) :
    ∃ k < base, c = digit k := by
  induction width generalizing n with
  | zero =>
      cases member
  | succ width ih =>
      rw [digits, List.mem_append, List.mem_singleton] at member
      rcases member with before | rfl
      · exact ih before
      · exact ⟨n % base, Nat.mod_lt n positive, rfl⟩

@[simp] theorem numeral_concat (base : Nat) (cs : List Char) (c : Char) :
    numeral base (cs ++ [c]) = numeral base cs * base + digitValue c := by
  simp [numeral]

/-- The digits of a number are a numeral for what fits into the width. -/
theorem numeral_digits {base : Nat} (positive : 0 < base)
    (small : base ≤ 16) (width n : Nat) :
    numeral base (digits base width n) = n % base ^ width := by
  induction width generalizing n with
  | zero =>
      rw [pow_zero, Nat.mod_one]
      rfl
  | succ width ih =>
      have last : n % base < 16 :=
        (Nat.mod_lt n positive).trans_le small
      rw [digits, numeral_concat, ih, digitValue_digit _ last, pow_succ',
        Nat.mod_mul]
      ring

/-- A number is determined by its decimal numeral. -/
theorem eq_of_toString_eq {m n : Nat} (eq : toString m = toString n) :
    m = n := by
  rw [Nat.toString_eq_ofList_toDigits, Nat.toString_eq_ofList_toDigits,
    String.ofList_inj] at eq
  rw [← Nat.ofDigitChars_ten_toDigits (n := m), eq,
    Nat.ofDigitChars_ten_toDigits]

theorem isDigit_of_mem_toString {n : Nat} {c : Char}
    (member : c ∈ (toString n).toList) : c.isDigit = true := by
  rw [Nat.toString_eq_ofList_toDigits, String.toList_ofList] at member
  exact Nat.isDigit_of_mem_toDigits (by decide) (le_refl 10) member

end Text
end NativeGlue
