import NativeGlue.Proofs.Descriptor.RoundTrip

/-!
# Canonical types

The types that descriptors spell are also the types that are built: the type
of a class with a valid name is canonical, and so is every array over a
canonical type, however often arrays are made of arrays. Dimensions add up
then, to at most `maxDimensions`.

Main statement: `parse_iff_and_canonical`. Reading accepts just the descriptors
of canonical types, and building gives no others.
-/

namespace NativeGlue
namespace TypeDescriptor

@[simp] theorem arrayOf_ne_void (t : TypeDescriptor) (n : Nat) :
    t.arrayOf n ≠ void := by
  cases t <;> simp [arrayOf, void]

/-- Dimensions of an array of arrays add up to those that there may be. -/
theorem arrayOf_arrayOf {element : TypeDescriptor}
    (single : element.isArray = false) (m n : Nat) :
    (element.arrayOf m).arrayOf n =
      element.arrayOf (min maxDimensions (m + n)) := by
  rw [arrayOf_of_not_isArray single, arrayOf_of_not_isArray single, arrayOf]

/-- An array over a canonical type that holds something is canonical. -/
theorem IsCanonical.arrayOf {t : TypeDescriptor} (canonical : t.IsCanonical)
    (holds : t ≠ void) {n : Nat} (positive : 0 < n)
    (few : n ≤ maxDimensions) : (t.arrayOf n).IsCanonical := by
  cases single : t.isArray with
  | false =>
      rw [arrayOf_of_not_isArray single]
      exact ⟨⟨positive, few⟩, single, holds, canonical⟩
  | true =>
      cases t with
      | array element inner =>
          obtain ⟨⟨some, -⟩, rest⟩ := canonical
          have least : 0 < min maxDimensions (inner + n) :=
            lt_min (by decide) (by omega)
          exact ⟨⟨least, min_le_left _ _⟩, rest⟩
      | _ => cases single

/-- Arrays of arrays stay canonical, whatever the number of steps. -/
theorem IsCanonical.foldl_arrayOf {t : TypeDescriptor}
    (canonical : t.IsCanonical) (holds : t ≠ void) {ns : List Nat}
    (sizes : ∀ n ∈ ns, 0 < n ∧ n ≤ maxDimensions) :
    (ns.foldl TypeDescriptor.arrayOf t).IsCanonical := by
  induction ns generalizing t with
  | nil =>
      exact canonical
  | cons n ns ih =>
      rw [List.forall_mem_cons] at sizes
      obtain ⟨⟨positive, few⟩, others⟩ := sizes
      exact ih (canonical.arrayOf holds positive few) (arrayOf_ne_void t n)
        others

/--
Reading a type gives `t` exactly if `t` is canonical and its descriptor is the
text, and reading a method gives `d` exactly if its types are canonical, none
of its parameters is `void`, and its descriptor is the text. Only canonical
types are built: of a class with a valid name, and as arrays, whose dimensions
add up to at most `maxDimensions`.
-/
theorem parse_iff_and_canonical :
    (∀ (s : String) (t : TypeDescriptor),
      TypeDescriptor.parse s = .ok t ↔ t.IsCanonical ∧ t.encode = s) ∧
    (∀ (s : String) (d : MethodDescriptor),
      MethodDescriptor.parse s = .ok d ↔
        (∀ t ∈ d.params, t.IsCanonical ∧ t ≠ void) ∧ d.ret.IsCanonical ∧
          d.encode = s) ∧
    (∀ name : ClassName, name.isValid = true →
      (ofClass name).IsCanonical) ∧
    (∀ (t : TypeDescriptor) (ns : List Nat), t.IsCanonical → t ≠ void →
      (∀ n ∈ ns, 0 < n ∧ n ≤ maxDimensions) →
      (ns.foldl arrayOf t).IsCanonical) ∧
    ∀ (element : TypeDescriptor) (m n : Nat), element.isArray = false →
      (element.arrayOf m).arrayOf n =
        element.arrayOf (min maxDimensions (m + n)) := by
  refine ⟨fun s t => parse_eq_ok_iff, ?_, fun _ => isCanonical_ofClass,
    fun t ns canonical holds => canonical.foldl_arrayOf holds,
    fun element m n single => arrayOf_arrayOf single m n⟩
  intro s d
  rw [MethodDescriptor.parse_eq_ok_iff, ← and_assoc]
  refine and_congr_left fun _ => ?_
  constructor
  · rintro ⟨params, ret⟩
    exact ⟨params, ret⟩
  · rintro ⟨params, ret⟩
    exact ⟨params, ret⟩

/-- A name with a letter of two bytes, whose type stands before another. -/
theorem parse_iff_and_canonical_accented :
    TypeDescriptor.parse "[[Lé/Ü;" = .ok (array (object ⟨"é/Ü"⟩) 2) ∧
      MethodDescriptor.parse "(Lé/Ü;[J)V" =
        .ok ⟨[object ⟨"é/Ü"⟩, array (primitive .long) 1], void⟩ ∧
      (ofClass ⟨"é/Ü"⟩).IsCanonical ∧
      ([200, 100].foldl arrayOf (ofClass ⟨"é/Ü"⟩)).IsCanonical ∧
      ((ofClass ⟨"é/Ü"⟩).arrayOf 200).arrayOf 100 =
        (ofClass ⟨"é/Ü"⟩).arrayOf 255 := by
  obtain ⟨types, methods, classes, arrays, sums⟩ := parse_iff_and_canonical
  have canonical := classes ⟨"é/Ü"⟩ (by decide)
  exact ⟨(types _ _).mpr ⟨by decide, by decide⟩,
    (methods _ _).mpr ⟨by decide, by decide, by decide⟩, canonical,
    arrays _ _ canonical (ofClass_ne_void _) (by decide),
    sums _ 200 100 (isArray_ofClass _)⟩

end TypeDescriptor
end NativeGlue
