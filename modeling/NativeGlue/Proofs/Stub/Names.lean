import NativeGlue.Proofs.Code.Namespace
import NativeGlue.Proofs.Stub.Prototypes

/-!
# Names and namespaces of implementations

The name of an implementation is what `sanitize` makes of the native name, or
that with a number after it. No reserved word ends in a digit, so a number
leaves an identifier what it is.

The segments of a namespace are made by `sanitize` as well. So they are found
again when the namespace that was resolved is written as an annotation.

Main statement: `names_normal`.
-/

namespace NativeGlue

section Numbers

open Code

theorem exists_getLast?_toString (n : Nat) :
    ∃ c, (toString n).toList.getLast? = some c ∧ c.isDigit = true := by
  have some : (toString n).toList ≠ [] := by
    rw [Nat.toString_eq_ofList_toDigits, String.toList_ofList]
    exact Nat.toDigits_ne_nil
  exact ⟨_, List.getLast?_eq_some_getLast some,
    Text.isDigit_of_mem_toString (List.getLast_mem some)⟩

theorem isIdentifier_numbered {name : String} (word : IsWord name) (n : Nat) :
    IsIdentifier (Lowering.numbered name n) := by
  refine ⟨(word.append fun c member => ?_).append fun c member => ?_, ?_⟩
  · rw [List.mem_singleton.mp member]
    decide
  · exact .inr (.inr (.inl (isDigit_iff.mp (Text.isDigit_of_mem_toString member))))
  · obtain ⟨c, last, digit⟩ := exists_getLast?_toString n
    refine not_mem_reservedWords_of_getLast? last
      (Bool.eq_false_iff.mpr fun lower => ?_)
    have both : 'a' ≤ '9' :=
      Char.le_trans (isLower_iff.mp lower).1 (isDigit_iff.mp digit).2
    exact absurd both (by decide)

end Numbers

namespace Lowering

open Code

/-- A name that is given is that of a prototype, or has a number after it. -/
theorem exists_of_mem_namesFrom {all ps : List Prototype}
    {taken : List (List String × String)} {name : String}
    (given : name ∈ namesFrom all taken ps) :
    ∃ p ∈ ps, name = p.name ∨ ∃ n, name = numbered p.name n := by
  induction ps generalizing taken with
  | nil => cases given
  | cons p rest ih =>
      rw [namesFrom] at given
      split at given
      · rcases List.mem_cons.mp given with rfl | later
        · exact ⟨p, List.mem_cons_self, .inl rfl⟩
        · obtain ⟨q, member, eq⟩ := ih later
          exact ⟨q, List.mem_cons_of_mem _ member, eq⟩
      · rcases List.mem_cons.mp given with rfl | later
        · exact ⟨p, List.mem_cons_self, .inr ⟨_, rfl⟩⟩
        · obtain ⟨q, member, eq⟩ := ih later
          exact ⟨q, List.mem_cons_of_mem _ member, eq⟩

theorem isIdentifier_of_mem_implementationNames {s : SignedTarget}
    {name : String} (given : name ∈ implementationNames s.ownPrototypes) :
    IsIdentifier name := by
  obtain ⟨p, own, made⟩ := exists_of_mem_namesFrom given
  obtain ⟨x, -, rfl⟩ := List.mem_map.mp own
  rcases made with rfl | ⟨n, rfl⟩
  · exact isIdentifier_sanitize _
  · exact isIdentifier_numbered (isIdentifier_sanitize _).toIsWord n

theorem isIdentifier_of_mem_spaceOf {t : Target} {m : Method}
    {segment : String} (member : segment ∈ spaceOf t m) :
    IsIdentifier segment := by
  unfold spaceOf at member
  split at member
  · exact isIdentifier_of_mem_splitSpace member
  · obtain ⟨part, -, rfl⟩ := List.mem_map.mp member
    exact isIdentifier_sanitize part

/-- A namespace that was resolved stays the same when it is written out. -/
theorem spaceOf_withSpace_intercalate {lead sep : String}
    (leads : lead = "" ∨ lead = "::") (parting : sep = "::" ∨ sep = ".")
    (t : Target) (m : Method) :
    spaceOf t (m.withSpace (lead ++ sep.intercalate (spaceOf t m))) =
      spaceOf t m :=
  splitSpace_append_intercalate leads parting
    fun _ => isIdentifier_of_mem_spaceOf

/--
Every text is made an identifier that is not reserved, and texts that are such
identifiers stay as they are, so making one twice does no more than once.

Every segment of a namespace is such an identifier, and the namespace written
out, with `::` or `.` between its segments and perhaps `::` in front, is
resolved to itself. The stubs of a target are given one name each, every one of
them such an identifier too, with a number after it or not.
-/
theorem names_normal :
    (∀ text, IsIdentifier (sanitize text) ∧
      sanitize (sanitize text) = sanitize text ∧
      (sanitize text = text ↔ IsIdentifier text)) ∧
    (∀ (t : Target) (m : Method),
      (∀ segment ∈ spaceOf t m, IsIdentifier segment) ∧
      ∀ lead sep, lead = "" ∨ lead = "::" → sep = "::" ∨ sep = "." →
        spaceOf t (m.withSpace (lead ++ sep.intercalate (spaceOf t m))) =
          spaceOf t m) ∧
    ∀ (s : SignedTarget) (exceptionClass : String),
      lowerTarget s exceptionClass =
        (s.methods.zip (implementationNames s.ownPrototypes)).map
          (fun ((m, signature), name) =>
            lower s.target m signature name exceptionClass) ∧
      (implementationNames s.ownPrototypes).length = s.methods.length ∧
      ∀ name ∈ implementationNames s.ownPrototypes, IsIdentifier name := by
  refine ⟨fun text => ?_, fun t m => ?_, fun s exceptionClass => ?_⟩
  · have made := isIdentifier_sanitize text
    exact ⟨made, sanitize_eq_self made, sanitize_eq_self_iff⟩
  · exact ⟨fun _ => isIdentifier_of_mem_spaceOf, fun _ _ leads parting =>
      spaceOf_withSpace_intercalate leads parting t m⟩
  · refine ⟨rfl, ?_, fun _ => isIdentifier_of_mem_implementationNames⟩
    rw [implementationNames, length_namesFrom, SignedTarget.ownPrototypes,
      List.length_map]

/-- A method whose native name is reserved. -/
def reservedMethod : MappedMethod where
  method := (Method.ofName "f" ⟨[], .primitive .void⟩
    ⟨true, false, false⟩).withNativeName "new"
  params := []
  ret := ⟨.primitive .void, "void", "void", .byValue, .primitive .void⟩

/-- A class with two methods of one prototype, in an odd package. -/
def reservedTarget : SignedTarget where
  target := { (default : Target) with name := ⟨"3d/class/C"⟩ }
  methods := [(reservedMethod, default), (reservedMethod, default)]
  skipped := []

theorem names_normal_reservedTarget :
    implementationNames reservedTarget.ownPrototypes = ["new__0", "new__1"] ∧
      IsIdentifier "new__0" ∧ IsIdentifier "new__1" ∧
      spaceOf reservedTarget.target reservedMethod.method = ["_3d", "class_"] ∧
      spaceOf reservedTarget.target
        (reservedMethod.method.withSpace "::_3d.class_") =
          ["_3d", "class_"] := by
  have names : implementationNames reservedTarget.ownPrototypes =
      ["new__0", "new__1"] := by
    decide +kernel
  have space : spaceOf reservedTarget.target reservedMethod.method =
      ["_3d", "class_"] := by
    decide +kernel
  obtain ⟨-, spaces, given⟩ := names_normal
  obtain ⟨-, -, identifiers⟩ := given reservedTarget "a/E"
  have again := (spaces reservedTarget.target reservedMethod.method).2
    "::" "." (.inr rfl) (.inr rfl)
  rw [names] at identifiers
  rw [space] at again
  exact ⟨names, identifiers _ (by simp), identifiers _ (by simp), space, again⟩

end Lowering
end NativeGlue
