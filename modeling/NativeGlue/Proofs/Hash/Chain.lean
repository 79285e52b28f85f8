import Mathlib.Data.Nat.ModEq
import Mathlib.Data.UInt
import Mathlib.Tactic.Ring
import NativeGlue.Hash.Fingerprint

/-!
# Chains of fingerprints

A chain is computed with words that wrap around. Its multiplier is odd, so a
step can be undone: fingerprints that differ are still different after any
links that follow both.

The multiplier less one is four times an odd number. So two links can be
swapped unnoticed just if they agree in all but their two highest bits.
-/

namespace NativeGlue
namespace Fingerprint

open scoped UInt64.CommRing

variable {f g p x y : Fingerprint}

section Words

theorem word_inj : f.word = g.word ↔ f = g := by
  cases f
  cases g
  simp

/-- The multiplier is odd, so it has an inverse among words. -/
theorem isUnit_multiplier : IsUnit multiplier :=
  IsUnit.of_mul_eq_one 0xd3f20f0a40208825 (by decide)

/-- A quarter of the multiplier less one is odd as well. -/
theorem exists_multiplier_eq :
    ∃ odd : UInt64, IsUnit odd ∧ multiplier = odd * 4 + 1 :=
  ⟨0x12f2535af41814eb,
    IsUnit.of_mul_eq_one 0x4df996449227f3c3 (by decide), by decide⟩

/-- Four times a word has room for all but its two highest bits. -/
theorem mul_four_inj {a b : UInt64} :
    a * 4 = b * 4 ↔ a.toNat ≡ b.toNat [MOD 2 ^ 62] := by
  have four : (4 : UInt64).toNat = 4 := rfl
  rw [← UInt64.toNat_inj, UInt64.toNat_mul, UInt64.toNat_mul, four, Nat.ModEq]
  omega

end Words

section Links

theorem chain_left_inj (next : Fingerprint) :
    f.chain next = g.chain next ↔ f = g := by
  rw [← word_inj, ← word_inj]
  exact (add_left_inj next.word).trans isUnit_multiplier.mul_left_inj

theorem chain_right_inj (f : Fingerprint) : f.chain x = f.chain y ↔ x = y := by
  rw [← word_inj, ← word_inj]
  exact add_right_inj (f.word * multiplier)

/-- What two links in either order differ by. -/
theorem chain_chain_comm_iff :
    (p.chain x).chain y = (p.chain y).chain x ↔
      x.word.toNat ≡ y.word.toNat [MOD 2 ^ 62] := by
  obtain ⟨odd, unit, eq⟩ := exists_multiplier_eq
  rw [← mul_four_inj, ← word_inj]
  change (p.word * multiplier + x.word) * multiplier + y.word
      = (p.word * multiplier + y.word) * multiplier + x.word ↔ _
  have difference :
      (p.word * multiplier + x.word) * multiplier + y.word
          - ((p.word * multiplier + y.word) * multiplier + x.word)
        = (x.word * 4 - y.word * 4) * odd := by
    rw [eq]
    ring
  rw [← sub_eq_zero, difference, unit.mul_left_eq_zero, sub_eq_zero]

end Links

section Runs

theorem chainAll_cons (f x : Fingerprint) (links : List Fingerprint) :
    f.chainAll (x :: links) = (f.chain x).chainAll links :=
  rfl

theorem chainAll_append (f : Fingerprint) (links later : List Fingerprint) :
    f.chainAll (links ++ later) = (f.chainAll links).chainAll later :=
  List.foldl_append

/-- Links that follow both chains hide no difference between them. -/
theorem chainAll_left_inj (links : List Fingerprint) :
    f.chainAll links = g.chainAll links ↔ f = g := by
  induction links generalizing f g with
  | nil => rfl
  | cons next links ih => exact ih.trans (chain_left_inj next)

/-- One link that is another, at any place, makes another chain. -/
theorem chainAll_replace_iff (f : Fingerprint)
    (front back : List Fingerprint) :
    f.chainAll (front ++ x :: back) = f.chainAll (front ++ y :: back) ↔
      x = y := by
  rw [chainAll_append, chainAll_append, chainAll_cons, chainAll_cons,
    chainAll_left_inj, chain_right_inj]

/-- Two neighbours can be swapped just if they agree modulo `2 ^ 62`. -/
theorem chainAll_swap_iff (f : Fingerprint) (front back : List Fingerprint) :
    f.chainAll (front ++ x :: y :: back) =
        f.chainAll (front ++ y :: x :: back) ↔
      x.word.toNat ≡ y.word.toNat [MOD 2 ^ 62] := by
  simp only [chainAll_append, chainAll_cons, chainAll_left_inj,
    chain_chain_comm_iff]

end Runs

end Fingerprint
end NativeGlue
