import Mathlib.Data.List.Induction
import Mathlib.Data.List.Nodup

/-!
# Values in the order of first use

`eraseDups` keeps each value of a list where it stands first. A value behind
the others is new, or else changes nothing.
-/

namespace NativeGlue

variable {α : Type} [BEq α] [LawfulBEq α]

theorem eraseDups_concat (values : List α) (v : α) :
    (values ++ [v]).eraseDups =
      if v ∈ values then values.eraseDups else values.eraseDups ++ [v] := by
  rw [List.eraseDups_append]
  by_cases inside : v ∈ values
  · rw [if_pos inside]
    simp [List.removeAll, inside]
  · rw [if_neg inside]
    simp [List.removeAll, List.eraseDups_cons, inside]

theorem nodup_eraseDups (values : List α) : values.eraseDups.Nodup := by
  induction values using List.reverseRecOn with
  | nil => exact .nil
  | append_singleton values v ih =>
      rw [eraseDups_concat]
      split
      · exact ih
      · rename_i absent
        rw [← List.mem_eraseDups] at absent
        rw [← List.concat_eq_append]
        exact List.Nodup.concat absent ih

end NativeGlue
