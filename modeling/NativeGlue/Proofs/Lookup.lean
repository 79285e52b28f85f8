import Mathlib.Data.List.Basic

/-!
# Look-up by distinct keys

In a list of pairs whose keys are distinct, looking up a key finds what the
list pairs it with, wherever the pair stands.
-/

namespace NativeGlue

variable {α : Type} {β : Type} [BEq α] [LawfulBEq α]

theorem lookup_eq_some_iff_mem {pairs : List (α × β)}
    (distinct : (pairs.map Prod.fst).Nodup) {key : α} {value : β} :
    pairs.lookup key = some value ↔ (key, value) ∈ pairs := by
  induction pairs with
  | nil =>
      simp
  | cons pair pairs ih =>
      obtain ⟨here, found⟩ := pair
      rw [List.map_cons, List.nodup_cons] at distinct
      by_cases same : key = here
      · subst same
        have once : (key, value) ∉ pairs := fun member =>
          distinct.1 (List.mem_map.mpr ⟨_, member, rfl⟩)
        simp [once, eq_comm]
      · have other : (key == here) = false := by
          simpa using same
        rw [List.lookup_cons, other, List.mem_cons]
        simpa [same] using ih distinct.2

end NativeGlue
