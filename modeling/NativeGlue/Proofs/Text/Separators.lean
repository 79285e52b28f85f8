import NativeGlue.Text.Basic
import Mathlib.Data.List.Chain

/-!
# Separators in texts

A text is taken apart at its separators in two ways: into the fields between
single ones, and at the first place where two stand together. The first way
gives an induction over the fields of a text. The second is unambiguous if
what stands before the pair has no two separators together and does not end in
one.
-/

namespace NativeGlue
namespace Text

variable {sep : Char}

section Fields

theorem fields_of_not_mem {f : List Char} (clear : sep ∉ f) :
    fields sep f = [f] := by
  induction f with
  | nil =>
      rfl
  | cons c f ih =>
      simp only [List.mem_cons, not_or] at clear
      rw [fields, if_neg (Ne.symm clear.1), ih clear.2]

theorem fields_append_cons {f : List Char} (clear : sep ∉ f)
    (cs : List Char) :
    fields sep (f ++ sep :: cs) = f :: fields sep cs := by
  induction f with
  | nil =>
      simp [fields]
  | cons c f ih =>
      simp only [List.mem_cons, not_or] at clear
      rw [List.cons_append, fields, if_neg (Ne.symm clear.1), ih clear.2]

/-- A text has no separator, or a field before the first one. -/
theorem eq_field_or_append (sep : Char) (cs : List Char) :
    sep ∉ cs ∨ ∃ f rest, sep ∉ f ∧ cs = f ++ sep :: rest := by
  by_cases member : sep ∈ cs
  · obtain ⟨f, rest, eq, clear⟩ := List.eq_append_cons_of_mem member
    exact .inr ⟨f, rest, clear, eq⟩
  · exact .inl member

/-- Induction over the fields of a text. -/
theorem fields_induction {motive : List Char → Prop} (sep : Char)
    (last : ∀ f, sep ∉ f → motive f)
    (field : ∀ f rest, sep ∉ f → motive rest → motive (f ++ sep :: rest))
    (cs : List Char) : motive cs := by
  rcases eq_field_or_append sep cs with clear | ⟨f, rest, clear, rfl⟩
  · exact last cs clear
  · exact field f rest clear (fields_induction sep last field rest)
termination_by cs.length
decreasing_by
  subst_vars
  simp only [List.length_append, List.length_cons]
  omega

/-- A separator between two texts parts their fields. -/
theorem fields_append_sep (xs ys : List Char) :
    fields sep (xs ++ sep :: ys) = fields sep xs ++ fields sep ys := by
  induction xs using fields_induction sep with
  | last f clear =>
      rw [fields_append_cons clear, fields_of_not_mem clear]
      rfl
  | field f rest clear ih =>
      rw [List.append_assoc, List.cons_append, fields_append_cons clear, ih,
        fields_append_cons clear]
      rfl

/-- What stands after the last separator is the last field. -/
theorem fields_append_cons_last {f : List Char} (clear : sep ∉ f)
    (cs : List Char) :
    fields sep (cs ++ sep :: f) = fields sep cs ++ [f] := by
  rw [fields_append_sep, fields_of_not_mem clear]

/-- What is in a field is in the text. -/
theorem mem_of_mem_fields {f cs : List Char} (among : f ∈ fields sep cs)
    {c : Char} (inside : c ∈ f) : c ∈ cs := by
  induction cs using fields_induction sep with
  | last g clear =>
      rw [fields_of_not_mem clear, List.mem_singleton] at among
      exact among ▸ inside
  | field g rest clear ih =>
      rw [fields_append_cons clear, List.mem_cons] at among
      rcases among with rfl | among
      · exact List.mem_append_left _ inside
      · exact List.mem_append_right _ (List.mem_cons_of_mem _ (ih among))

theorem not_mem_of_mem_fields {f cs : List Char}
    (among : f ∈ fields sep cs) : sep ∉ f := by
  induction cs using fields_induction sep with
  | last g clear =>
      rw [fields_of_not_mem clear, List.mem_singleton] at among
      exact among ▸ clear
  | field g rest clear ih =>
      rw [fields_append_cons clear, List.mem_cons] at among
      rcases among with rfl | among
      · exact clear
      · exact ih among

/-- The last separator divides a text in one way. -/
theorem append_cons_inj_of_not_mem_right {f g xs ys : List Char}
    (clearF : sep ∉ f) (clearG : sep ∉ g)
    (eq : xs ++ sep :: f = ys ++ sep :: g) : xs = ys ∧ f = g := by
  have parts := congrArg (fields sep) eq
  rw [fields_append_cons_last clearF, fields_append_cons_last clearG] at parts
  obtain rfl : f = g := by
    simpa using (List.append_inj' parts rfl).2
  exact ⟨List.append_cancel_right eq, rfl⟩

/-- The first separator divides a text in one way. -/
theorem append_cons_inj_of_not_mem_left {f g xs ys : List Char}
    (clearF : sep ∉ f) (clearG : sep ∉ g)
    (eq : f ++ sep :: xs = g ++ sep :: ys) : f = g ∧ xs = ys := by
  have parts := congrArg (fields sep) eq
  rw [fields_append_cons clearF, fields_append_cons clearG] at parts
  obtain ⟨rfl, -⟩ := List.cons.inj parts
  exact ⟨rfl, (List.cons.inj (List.append_cancel_left eq)).2⟩

/-- Texts without separators are told apart in the text that joins them. -/
theorem intercalate_inj {gap : List Char} {xs ys : List (List Char)}
    (clearX : ∀ x ∈ xs, sep ∉ x) (clearY : ∀ y ∈ ys, sep ∉ y)
    (someX : xs ≠ []) (someY : ys ≠ [])
    (eq : (sep :: gap).intercalate xs = (sep :: gap).intercalate ys) :
    xs = ys := by
  induction xs generalizing ys with
  | nil => exact absurd rfl someX
  | cons x xs ih =>
      obtain ⟨y, ys, rfl⟩ := List.exists_cons_of_ne_nil someY
      rw [List.forall_mem_cons] at clearX clearY
      cases xs with
      | nil =>
          cases ys with
          | nil => simpa using eq
          | cons y' ys =>
              rw [List.intercalate_singleton, List.intercalate_cons_cons] at eq
              exact absurd (by rw [eq]; simp) clearX.1
      | cons x' xs =>
          cases ys with
          | nil =>
              rw [List.intercalate_singleton, List.intercalate_cons_cons] at eq
              exact absurd (by rw [← eq]; simp) clearY.1
          | cons y' ys =>
              rw [List.intercalate_cons_cons, List.intercalate_cons_cons,
                List.append_assoc, List.append_assoc, List.cons_append,
                List.cons_append] at eq
              obtain ⟨rfl, rest⟩ :=
                append_cons_inj_of_not_mem_left clearX.1 clearY.1 eq
              rw [ih clearX.2 clearY.2 (by simp) (by simp)
                (List.append_cancel_left rest)]

end Fields

section Pairs

/-- What only restricts separators says nothing on a text without them. -/
theorem isChain_append_of_not_mem {R : Char → Char → Prop}
    (free : ∀ a b, a ≠ sep → R a b) {f cs : List Char} (clear : sep ∉ f)
    (chain : cs.IsChain R) : (f ++ cs).IsChain R := by
  induction f with
  | nil =>
      exact chain
  | cons c f ih =>
      simp only [List.mem_cons, not_or] at clear
      exact List.IsChain.cons (ih clear.2) fun d _ =>
        free c d (Ne.symm clear.1)

/--
A text in which no two separators stand together, even with one put after it.
-/
def Single (sep : Char) (cs : List Char) : Prop :=
  (cs ++ [sep]).IsChain fun a b => ¬(a = sep ∧ b = sep)

theorem single_nil (sep : Char) : Single sep [] :=
  List.isChain_singleton sep

/-- A text without separators may stand before one that has single ones. -/
theorem Single.append_left {f cs : List Char} (clear : sep ∉ f)
    (single : Single sep cs) : Single sep (f ++ cs) := by
  rw [Single, List.append_assoc]
  exact isChain_append_of_not_mem (fun _ _ other => by simp [other]) clear
    single

/-- A separator may stand before a text that starts with something else. -/
theorem Single.cons_sep {c : Char} {cs : List Char} (other : c ≠ sep)
    (single : Single sep (c :: cs)) : Single sep (sep :: c :: cs) := by
  refine List.IsChain.cons single ?_
  rintro d member ⟨-, rfl⟩
  exact other (Option.some.inj member)

/-- No pair of separators begins in a text with single ones. -/
theorem Single.eq_nil_of_pair {xs ys s t : List Char}
    (single : Single sep (xs ++ ys))
    (pair : sep :: sep :: s = ys ++ sep :: sep :: t) : ys = [] := by
  rw [Single, List.append_assoc] at single
  have right := single.right_of_append
  cases ys with
  | nil =>
      rfl
  | cons a ys =>
      obtain ⟨rfl, second⟩ := List.cons.inj pair
      cases ys with
      | nil =>
          simp at right
      | cons b ys =>
          have same : sep = b := (List.cons.inj second).1
          simp [same] at right

/-- A text with single separators has no pair in it. -/
theorem Single.ne_append_pair {xs : List Char} (single : Single sep xs)
    (ys t : List Char) : xs ≠ ys ++ sep :: sep :: t := by
  rintro rfl
  have nil : sep :: sep :: t = [] :=
    single.eq_nil_of_pair (s := t ++ [sep, sep]) (t := []) (by simp)
  cases nil

/-- The first pair of separators divides a text in one way. -/
theorem Single.append_pair_inj {xs ys s t : List Char}
    (left : Single sep xs) (right : Single sep ys)
    (eq : xs ++ sep :: sep :: s = ys ++ sep :: sep :: t) :
    xs = ys ∧ s = t := by
  rcases List.append_eq_append_iff.mp eq with ⟨zs, rfl, tail⟩ | ⟨zs, rfl, tail⟩
  · obtain rfl := right.eq_nil_of_pair tail
    simp_all
  · obtain rfl := left.eq_nil_of_pair tail
    simp_all

end Pairs

end Text
end NativeGlue
