import Mathlib.Data.List.Basic
import NativeGlue.Ascending

/-!
# Search in ascending lists

A search by halving keeps two bounds: what stands in front of the lower one is
less than the number, and what stands from the upper one on is greater. Where
the bounds meet, the number is missing and belongs there. So in an ascending
list the search finds what the list holds, and a number that is put in leaves
the list ascending.
-/

namespace NativeGlue
namespace Ascending

variable {xs : List Nat} {x y low high position middle : Nat}

/-- A position with lesser numbers in front of it and greater ones behind. -/
structure Divides (xs : List Nat) (x position : Nat) : Prop where
  within : position ≤ xs.length
  below : ∀ y ∈ xs.take position, y < x
  above : ∀ y ∈ xs.drop position, x < y

/-- What a place says of a number. -/
def Place.Fits (xs : List Nat) (x : Nat) : Place → Prop
  | .held position => xs[position]? = some x
  | .gap position => Divides xs x position

section Search

/-- If a number is greater, those behind it are. -/
theorem lt_of_mem_drop (ascending : xs.Pairwise (· < ·))
    (inside : middle < xs.length) (less : x < xs[middle])
    (member : y ∈ xs.drop middle) : x < y := by
  have behind := ascending.drop (i := middle)
  rw [List.drop_eq_getElem_cons inside] at behind member
  rcases List.mem_cons.mp member with rfl | member
  · exact less
  · exact Nat.lt_trans less ((List.pairwise_cons.mp behind).1 y member)

/-- If a number is less, those in front of it are. -/
theorem lt_of_mem_take (ascending : xs.Pairwise (· < ·))
    (inside : middle < xs.length) (less : xs[middle] < x)
    (member : y ∈ xs.take (middle + 1)) : y < x := by
  have front := ascending.take (i := middle + 1)
  rw [← List.take_append_getElem inside] at front member
  rcases List.mem_append.mp member with member | member
  · have earlier := (List.pairwise_append.mp front).2.2 y member _
      (List.mem_singleton.mpr rfl)
    exact Nat.lt_trans earlier less
  · rwa [List.mem_singleton.mp member]

theorem fits_placeBetween (ascending : xs.Pairwise (· < ·))
    (within : high ≤ xs.length) (ordered : low ≤ high)
    (below : ∀ y ∈ xs.take low, y < x) (above : ∀ y ∈ xs.drop high, x < y) :
    (placeBetween xs x low high within).Fits xs x := by
  -- A bound moves only past numbers that are all less, or all greater.
  fun_induction placeBetween xs x low high within with
  | case1 low high within more middle inside less ih =>
      have less : x < xs[middle] := Nat.compare_eq_lt.mp less
      exact ih (by omega) below fun y => lt_of_mem_drop ascending _ less
  | case2 low high within more middle inside same =>
      have same : x = xs[middle] := Nat.compare_eq_eq.mp same
      rw [Place.Fits, List.getElem?_eq_getElem (by omega), same]
  | case3 low high within more middle inside greater ih =>
      have greater : xs[middle] < x := Nat.compare_eq_gt.mp greater
      exact ih inside (fun y => lt_of_mem_take ascending _ greater) above
  | case4 low high within met =>
      obtain rfl : low = high := by omega
      exact ⟨within, below, above⟩

/-- The place of a number in an ascending list. -/
theorem fits_place (ascending : xs.Pairwise (· < ·)) (x : Nat) :
    (place xs x).Fits xs x :=
  fits_placeBetween ascending _ (Nat.zero_le _) (by simp) (by simp)

end Search

theorem Divides.not_mem (divides : Divides xs x position) : x ∉ xs := by
  intro member
  rw [← List.take_append_drop position xs, List.mem_append] at member
  rcases member with front | behind
  · exact Nat.lt_irrefl x (divides.below x front)
  · exact Nat.lt_irrefl x (divides.above x behind)

/-- In an ascending list, what is found is what the list holds. -/
theorem contains_iff (ascending : xs.Pairwise (· < ·)) :
    contains xs x = true ↔ x ∈ xs := by
  have fits := fits_place ascending x
  rw [contains]
  cases found : place xs x with
  | held position =>
      rw [found] at fits
      simpa using List.mem_of_getElem? fits
  | gap position =>
      rw [found] at fits
      simpa using fits.not_mem

section Insertion

theorem Divides.insertIdx_eq (divides : Divides xs x position) :
    xs.insertIdx position x = xs.take position ++ x :: xs.drop position := by
  obtain ⟨front, behind, rfl, rfl, inserted⟩ :=
    List.exists_of_modifyTailIdx (List.cons x) divides.within
  rw [List.insertIdx, inserted, List.take_left, List.drop_left]

theorem mem_insert (ascending : xs.Pairwise (· < ·)) :
    y ∈ insert x xs ↔ y = x ∨ y ∈ xs := by
  have fits := fits_place ascending x
  rw [insert]
  cases found : place xs x with
  | held position =>
      rw [found] at fits
      have member : x ∈ xs := List.mem_of_getElem? fits
      exact ⟨.inr, fun h => h.elim (fun same => same ▸ member) id⟩
  | gap position =>
      rw [found] at fits
      exact List.mem_insertIdx fits.within

/-- An ascending list stays ascending. -/
theorem pairwise_insert (ascending : xs.Pairwise (· < ·)) (x : Nat) :
    (insert x xs).Pairwise (· < ·) := by
  have fits := fits_place ascending x
  rw [insert]
  cases found : place xs x with
  | held position => exact ascending
  | gap position =>
      rw [found] at fits
      change (xs.insertIdx position x).Pairwise (· < ·)
      rw [fits.insertIdx_eq, List.pairwise_append, List.pairwise_cons]
      refine ⟨ascending.take, ⟨fits.above, ascending.drop⟩, ?_⟩
      intro y front z behind
      have less := fits.below y front
      rcases List.mem_cons.mp behind with rfl | behind
      · exact less
      · exact Nat.lt_trans less (fits.above z behind)

end Insertion

end Ascending
end NativeGlue
