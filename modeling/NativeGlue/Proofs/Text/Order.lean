import NativeGlue.Text.Basic

/-!
# The order of texts

Texts are ordered by code points: any two are comparable, and the order is
transitive and antisymmetric. A text between two with a common beginning has it too.
-/

namespace NativeGlue
namespace Text

theorem leChars_trans {a b c : List Char} (low : leChars a b = true)
    (high : leChars b c = true) : leChars a c = true := by
  induction a generalizing b c with
  | nil =>
      rfl
  | cons x a ih =>
      cases b with
      | nil => cases low
      | cons y b =>
          cases c with
          | nil => cases high
          | cons z c =>
              simp only [leChars, Bool.or_eq_true, Bool.and_eq_true,
                decide_eq_true_eq] at low high ⊢
              rcases low with low | ⟨rfl, low⟩
              · rcases high with high | ⟨rfl, -⟩
                · exact .inl (Nat.lt_trans low high)
                · exact .inl low
              · rcases high with high | ⟨rfl, high⟩
                · exact .inl high
                · exact .inr ⟨rfl, ih low high⟩

theorem leChars_total (a b : List Char) :
    leChars a b = true ∨ leChars b a = true := by
  induction a generalizing b with
  | nil =>
      exact .inl rfl
  | cons x a ih =>
      cases b with
      | nil => exact .inr rfl
      | cons y b =>
          simp only [leChars, Bool.or_eq_true, Bool.and_eq_true,
            decide_eq_true_eq]
          rcases Nat.lt_trichotomy x.toNat y.toNat with less | same | more
          · exact .inl (.inl less)
          · obtain rfl : x = y := by
              rw [← Char.ofNat_toNat x, same, Char.ofNat_toNat]
            rcases ih b with left | right
            · exact .inl (.inr ⟨rfl, left⟩)
            · exact .inr (.inr ⟨rfl, right⟩)
          · exact .inr (.inl more)

theorem leChars_antisymm {a b : List Char} (low : leChars a b = true)
    (high : leChars b a = true) : a = b := by
  induction a generalizing b with
  | nil =>
      cases b with
      | nil => rfl
      | cons y b => cases high
  | cons x a ih =>
      cases b with
      | nil => cases low
      | cons y b =>
          simp only [leChars, Bool.or_eq_true, Bool.and_eq_true,
            decide_eq_true_eq] at low high
          rcases low with low | ⟨rfl, low⟩
          · rcases high with high | ⟨rfl, -⟩ <;> omega
          · rcases high with high | ⟨-, high⟩
            · omega
            · rw [ih low high]

theorem le_trans {a b c : String} (low : le a b = true)
    (high : le b c = true) : le a c = true :=
  leChars_trans low high

theorem le_total (a b : String) : (le a b || le b a) = true := by
  rw [Bool.or_eq_true]
  exact leChars_total a.toList b.toList

theorem le_antisymm {a b : String} (low : le a b = true)
    (high : le b a = true) : a = b :=
  String.toList_injective (leChars_antisymm low high)

/-- A text between two with a common beginning has it too. -/
theorem prefix_of_between {front a b c : List Char}
    (low : leChars (front ++ a) b = true)
    (high : leChars b (front ++ c) = true) : front <+: b := by
  induction front generalizing b with
  | nil =>
      exact List.nil_prefix
  | cons x front ih =>
      cases b with
      | nil =>
          cases low
      | cons y b =>
          simp only [List.cons_append, leChars, Bool.or_eq_true,
            Bool.and_eq_true, decide_eq_true_eq] at low high
          rcases low with low | ⟨rfl, low⟩
          · rcases high with high | ⟨rfl, -⟩ <;> omega
          · rcases high with high | ⟨-, high⟩
            · omega
            · exact List.cons_prefix_cons.mpr ⟨rfl, ih low high⟩

end Text
end NativeGlue
