import NativeGlue.Code.Identifier

/-!
# Identifiers

What `sanitize` makes of a text has only characters that may stand in an
identifier: replacing, and putting `_` in front or behind, adds no others.

It is an identifier that is not reserved, whatever the text is: no reserved word
ends in `_`, so that `_` behind one frees it. Such identifiers are the texts
that `sanitize` leaves as they are.
-/

namespace NativeGlue
namespace Code

/-- A character that may stand in an identifier, in the place of any. -/
def identifierChar (c : Char) : Char :=
  if isIdentifierChar c then c else '_'

/-- The characters of a text made those of an identifier. -/
def identifierChars (cs : List Char) : List Char :=
  if startsIdentifier (cs.map identifierChar) then cs.map identifierChar
  else '_' :: cs.map identifierChar

theorem sanitize_eq (segment : String) :
    sanitize segment =
      if reservedWords.contains
          (String.ofList (identifierChars segment.toList)) then
        String.ofList (identifierChars segment.toList) ++ "_"
      else
        String.ofList (identifierChars segment.toList) :=
  rfl

theorem isIdentifierChar_identifierChar (c : Char) :
    isIdentifierChar (identifierChar c) = true := by
  rw [identifierChar]
  split
  · assumption
  · rfl

theorem isIdentifierChar_of_mem_identifierChars {cs : List Char} {c : Char}
    (member : c ∈ identifierChars cs) : isIdentifierChar c = true := by
  have replaced : ∀ d ∈ cs.map identifierChar, isIdentifierChar d = true := by
    intro d inside
    obtain ⟨c, -, rfl⟩ := List.mem_map.mp inside
    exact isIdentifierChar_identifierChar c
  rw [identifierChars] at member
  split at member
  · exact replaced c member
  · rcases List.mem_cons.mp member with rfl | member
    · rfl
    · exact replaced c member

theorem isIdentifierChar_of_mem_sanitize {segment : String} {c : Char}
    (member : c ∈ (sanitize segment).toList) : isIdentifierChar c = true := by
  rw [sanitize_eq] at member
  split at member
  · rw [String.toList_append, String.toList_ofList, List.mem_append] at member
    rcases member with inside | behind
    · exact isIdentifierChar_of_mem_identifierChars inside
    · rw [List.mem_singleton.mp behind]
      rfl
  · rw [String.toList_ofList] at member
    exact isIdentifierChar_of_mem_identifierChars member

/-- The letters, the digits and `_`. -/
def IsWordChar (c : Char) : Prop :=
  ('a' ≤ c ∧ c ≤ 'z') ∨ ('A' ≤ c ∧ c ≤ 'Z') ∨ ('0' ≤ c ∧ c ≤ '9') ∨ c = '_'

instance (c : Char) : Decidable (IsWordChar c) :=
  inferInstanceAs (Decidable (_ ∨ _))

theorem between_iff {low high c : Char} :
    (decide (low ≤ c) && decide (c ≤ high)) = true ↔ low ≤ c ∧ c ≤ high := by
  rw [Bool.and_eq_true, decide_eq_true_eq, decide_eq_true_eq]

theorem isDigit_iff {c : Char} : c.isDigit = true ↔ '0' ≤ c ∧ c ≤ '9' :=
  between_iff

theorem isUpper_iff {c : Char} : c.isUpper = true ↔ 'A' ≤ c ∧ c ≤ 'Z' :=
  decide_eq_true_iff

theorem isLower_iff {c : Char} : c.isLower = true ↔ 'a' ≤ c ∧ c ≤ 'z' :=
  between_iff

theorem isIdentifierChar_iff {c : Char} :
    isIdentifierChar c = true ↔ IsWordChar c := by
  change ((c.isUpper || c.isLower || c.isDigit) || decide (c = '_')) = true ↔ _
  rw [Bool.or_eq_true, Bool.or_eq_true, Bool.or_eq_true, isUpper_iff,
    isLower_iff, isDigit_iff, decide_eq_true_eq, or_assoc, or_assoc]
  exact or_left_comm

/-- A word: letters, digits and `_`, with no digit in front. -/
structure IsWord (name : String) : Prop where
  ne_empty : name ≠ ""
  chars : ∀ c ∈ name.toList, IsWordChar c
  front : ∀ c ∈ name.toList.head?, ¬ ('0' ≤ c ∧ c ≤ '9')

/-- A word that is no reserved one, so that it names something. -/
structure IsIdentifier (name : String) : Prop extends IsWord name where
  free : name ∉ reservedWords

theorem startsIdentifier_iff {cs : List Char} :
    startsIdentifier cs = true ↔
      cs ≠ [] ∧ ∀ c ∈ cs.head?, ¬ ('0' ≤ c ∧ c ≤ '9') := by
  cases cs with
  | nil => simp [startsIdentifier]
  | cons c cs => simp [startsIdentifier, ← isDigit_iff]

theorem startsIdentifier_identifierChars (cs : List Char) :
    startsIdentifier (identifierChars cs) = true := by
  rw [identifierChars]
  split
  · assumption
  · rfl

theorem isWord_ofList {cs : List Char}
    (chars : ∀ c ∈ cs, isIdentifierChar c = true)
    (starts : startsIdentifier cs = true) : IsWord (String.ofList cs) := by
  obtain ⟨some, front⟩ := startsIdentifier_iff.mp starts
  refine ⟨?_, ?_, ?_⟩
  · simpa using some
  · simpa [← isIdentifierChar_iff] using chars
  · simpa using front

theorem isWord_identifierChars (cs : List Char) :
    IsWord (String.ofList (identifierChars cs)) :=
  isWord_ofList (fun _ => isIdentifierChar_of_mem_identifierChars)
    (startsIdentifier_identifierChars cs)

theorem IsWord.append {name tail : String} (word : IsWord name)
    (chars : ∀ c ∈ tail.toList, IsWordChar c) : IsWord (name ++ tail) := by
  obtain ⟨c, cs, eq⟩ := List.exists_cons_of_ne_nil
    (mt String.toList_eq_nil_iff.mp word.ne_empty)
  refine ⟨?_, ?_, ?_⟩
  · simp [word.ne_empty]
  · intro c member
    rw [String.toList_append, List.mem_append] at member
    exact member.elim (word.chars c) (chars c)
  · have front := word.front
    rw [eq] at front
    simpa [String.toList_append, eq] using front

/-- No reserved word ends in a digit or in `_`. -/
theorem isLower_of_mem_reservedWords :
    ∀ word ∈ reservedWords, ∃ cs, word = String.ofList cs ∧
      cs.getLast?.any Char.isLower = true := by
  -- The words are spelled out one by one; evaluating their texts is slow.
  repeat refine List.forall_mem_cons.mpr ⟨⟨_, rfl, rfl⟩, ?_⟩
  nofun

/-- What is put behind a word so that it is free. -/
theorem not_mem_reservedWords_of_getLast? {name tail : String} {c : Char}
    (last : tail.toList.getLast? = some c) (other : c.isLower = false) :
    name ++ tail ∉ reservedWords := by
  intro member
  obtain ⟨cs, eq, lower⟩ := isLower_of_mem_reservedWords _ member
  have ending : cs.getLast? = some c := by
    rw [← String.toList_ofList (l := cs), ← eq, String.toList_append,
      List.getLast?_append, last]
    rfl
  rw [ending, Option.any_some, other] at lower
  cases lower

theorem isIdentifier_sanitize (segment : String) :
    IsIdentifier (sanitize segment) := by
  have word := isWord_identifierChars segment.toList
  rw [sanitize_eq]
  split
  · refine ⟨word.append fun c member => ?_, ?_⟩
    · rw [List.mem_singleton.mp member]
      exact .inr (.inr (.inr rfl))
    · exact not_mem_reservedWords_of_getLast? (c := '_') rfl rfl
  · rename_i free
    exact ⟨word, by simpa using free⟩

theorem sanitize_eq_self {name : String} (identifier : IsIdentifier name) :
    sanitize name = name := by
  have chars : name.toList.map identifierChar = name.toList := by
    refine (List.map_congr_left fun c member => ?_).trans (List.map_id _)
    rw [identifierChar, if_pos (isIdentifierChar_iff.mpr
      (identifier.chars c member)), id]
  have whole : identifierChars name.toList = name.toList := by
    rw [identifierChars, chars, if_pos]
    exact startsIdentifier_iff.mpr
      ⟨mt String.toList_eq_nil_iff.mp identifier.ne_empty, identifier.front⟩
  rw [sanitize_eq, whole, String.ofList_toList, if_neg]
  simpa using identifier.free

/-- Identifiers are what `sanitize` leaves unchanged. -/
theorem sanitize_eq_self_iff {name : String} :
    sanitize name = name ↔ IsIdentifier name :=
  ⟨fun eq => eq ▸ isIdentifier_sanitize name, sanitize_eq_self⟩

end Code
end NativeGlue
