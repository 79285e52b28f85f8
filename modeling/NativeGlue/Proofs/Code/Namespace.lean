import NativeGlue.Proofs.Code.Identifier

/-!
# Namespaces as written

A namespace is written with `::` or `.` between its segments. Identifiers have
neither in them, so the text that joins identifiers is taken apart into them
again, and `sanitize` leaves them as they are.
-/

namespace NativeGlue
namespace Code

section Parts

/-- A text in which no part of a namespace ends. -/
def IsPart (f : List Char) : Prop :=
  ':' ∉ f ∧ '.' ∉ f

/-- A text that ends a part of a namespace, whatever stands behind it. -/
def IsGap (gap : List Char) : Prop :=
  ∀ cs, spaceParts (gap ++ cs) = [] :: spaceParts cs

theorem isGap_colons : IsGap "::".toList :=
  fun _ => rfl

theorem isGap_dot : IsGap ".".toList :=
  fun _ => rfl

/-- What stands in front of a text belongs to its first part. -/
theorem spaceParts_append {f part cs : List Char} {parts : List (List Char)}
    (clear : IsPart f) (rest : spaceParts cs = part :: parts) :
    spaceParts (f ++ cs) = (f ++ part) :: parts := by
  induction f with
  | nil => exact rest
  | cons c f ih =>
      obtain ⟨colon, dot⟩ := clear
      rw [List.mem_cons, not_or] at colon dot
      rw [List.cons_append, spaceParts, ih ⟨colon.2, dot.2⟩]
      · rfl
      · rintro _ rfl
        exact absurd rfl colon.1
      · rintro rfl
        exact absurd rfl dot.1

/-- Joined parts are found again. -/
theorem spaceParts_intercalate {gap : List Char} (parting : IsGap gap)
    {parts : List (List Char)} (clear : ∀ f ∈ parts, IsPart f)
    (some : parts ≠ []) : spaceParts (gap.intercalate parts) = parts := by
  induction parts with
  | nil => exact absurd rfl some
  | cons f parts ih =>
      rw [List.forall_mem_cons] at clear
      cases parts with
      | nil =>
          have last : spaceParts [] = [[]] := rfl
          simpa using spaceParts_append clear.1 last
      | cons g parts =>
          rw [List.intercalate_cons_cons, List.append_assoc,
            spaceParts_append clear.1 (parting _), ih clear.2 (by simp),
            List.append_nil]

end Parts

section Segments

theorem IsWord.isPart {name : String} (word : IsWord name) :
    IsPart name.toList :=
  ⟨fun colon => absurd (word.chars _ colon) (by decide),
    fun dot => absurd (word.chars _ dot) (by decide)⟩

theorem isIdentifier_of_mem_splitSpace {space segment : String}
    (member : segment ∈ splitSpace space) : IsIdentifier segment := by
  obtain ⟨part, -, rfl⟩ := List.mem_map.mp member
  exact isIdentifier_sanitize _

/-- The parts of a namespace that count. -/
def writtenParts (cs : List Char) : List (List Char) :=
  (spaceParts cs).filter fun part => !part.isEmpty

theorem splitSpace_eq (space : String) :
    splitSpace space =
      (writtenParts space.toList).map fun part =>
        sanitize (String.ofList part) :=
  rfl

/-- The empty part in front of a gap does not count. -/
theorem writtenParts_append {gap : List Char} (parting : IsGap gap)
    (cs : List Char) : writtenParts (gap ++ cs) = writtenParts cs := by
  rw [writtenParts, parting]
  rfl

theorem writtenParts_intercalate {gap : List Char} (parting : IsGap gap)
    {segments : List String} (identifiers : ∀ s ∈ segments, IsIdentifier s) :
    writtenParts (gap.intercalate (segments.map String.toList)) =
      segments.map String.toList := by
  by_cases none : segments = []
  · rw [none]
    rfl
  rw [writtenParts, spaceParts_intercalate parting, List.filter_eq_self]
  · intro part member
    obtain ⟨s, inside, rfl⟩ := List.mem_map.mp member
    simpa using (identifiers s inside).ne_empty
  · intro part member
    obtain ⟨s, inside, rfl⟩ := List.mem_map.mp member
    exact (identifiers s inside).isPart
  · simpa using none

/-- Joined identifiers are found again, also with `::` in front of them. -/
theorem splitSpace_append_intercalate {lead sep : String}
    (leads : lead = "" ∨ lead = "::") (parting : sep = "::" ∨ sep = ".")
    {segments : List String} (identifiers : ∀ s ∈ segments, IsIdentifier s) :
    splitSpace (lead ++ sep.intercalate segments) = segments := by
  have gap : IsGap sep.toList := by
    rcases parting with rfl | rfl
    · exact isGap_colons
    · exact isGap_dot
  have written : writtenParts (lead ++ sep.intercalate segments).toList =
      segments.map String.toList := by
    rw [String.toList_append, String.toList_intercalate]
    rcases leads with rfl | rfl
    · exact writtenParts_intercalate gap identifiers
    · rw [writtenParts_append isGap_colons]
      exact writtenParts_intercalate gap identifiers
  rw [splitSpace_eq, written, List.map_map]
  refine (List.map_congr_left fun s member => ?_).trans (List.map_id _)
  rw [Function.comp_apply, String.ofList_toList,
    sanitize_eq_self (identifiers s member), id]

end Segments

end Code
end NativeGlue
