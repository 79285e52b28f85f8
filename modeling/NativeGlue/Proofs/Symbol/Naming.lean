import NativeGlue.Binding
import NativeGlue.Symbol.Naming
import NativeGlue.Proofs.Descriptor.RoundTrip
import NativeGlue.Proofs.Mapping.Basic
import NativeGlue.Proofs.Symbol.Mangling

/-!
# Symbols and what they name

For names as they occur in class files, the short and the long symbols of all
methods are told apart: a symbol determines the class, the method, and the
parameters if it tells them. The numbered symbols of one class determine the
method and the number.

The text behind a symbol is the path of the method, `com/example/Math/add`,
with `//` and the parameters after it in a long one. A path has no two slashes
together, and its last field is the name of the method.
-/

namespace NativeGlue

open Text

/-- A class name with no segment that starts with a digit from 0 to 3. -/
def ClassName.PlainSegments (c : ClassName) : Prop :=
  ∀ s ∈ fields '/' c.internal.toList, Symbol.OpensPlainly s

/-- A class name that is valid and has plain segments. -/
structure ClassName.Legal (c : ClassName) : Prop where
  valid : c.isValid = true
  plain : c.PlainSegments

/-- A method name as class files have it that starts with no such digit. -/
structure Symbol.MethodName (name : String) : Prop where
  nonempty : name ≠ ""
  allowed : ∀ c ∈ name.toList, c ≠ '.' ∧ c ≠ '/' ∧ c ≠ ';' ∧ c ≠ '['
  plain : Symbol.OpensPlainly name.toList

/-- A method with a legal name, a descriptor that is read, and plain objects. -/
structure Method.Legal (m : Method) : Prop where
  name : Symbol.MethodName m.name
  parsed : ∃ s, MethodDescriptor.parse s = .ok m.descriptor
  objects : ∀ c, .object c ∈ m.descriptor.params → c.PlainSegments

section Decidable

instance (c : ClassName) : Decidable c.PlainSegments :=
  inferInstanceAs
    (Decidable (∀ s ∈ fields '/' c.internal.toList, Symbol.OpensPlainly s))

instance (c : ClassName) : Decidable c.Legal :=
  decidable_of_iff (c.isValid = true ∧ c.PlainSegments)
    ⟨fun ⟨valid, plain⟩ => ⟨valid, plain⟩,
      fun ⟨valid, plain⟩ => ⟨valid, plain⟩⟩

instance (name : String) : Decidable (Symbol.MethodName name) :=
  decidable_of_iff
    (name ≠ "" ∧
      (name.toList.all fun c =>
        c ≠ '.' ∧ c ≠ '/' ∧ c ≠ ';' ∧ c ≠ '[') = true ∧
      Symbol.OpensPlainly name.toList)
    (by
      simp only [List.all_eq_true, decide_eq_true_eq]
      exact ⟨fun ⟨nonempty, allowed, plain⟩ => ⟨nonempty, allowed, plain⟩,
        fun ⟨nonempty, allowed, plain⟩ => ⟨nonempty, allowed, plain⟩⟩)

/-- A type that is no object, or one whose class has plain segments. -/
def PlainObject : TypeDescriptor → Prop
  | .object c => c.PlainSegments
  | _ => True

instance decidablePlainObject : (t : TypeDescriptor) →
    Decidable (PlainObject t)
  | .object c => inferInstanceAs (Decidable c.PlainSegments)
  | .primitive _ | .array _ _ | .string => .isTrue trivial

/-- Legality of a method, as a check of its name and of each parameter. -/
theorem Method.legal_iff {m : Method} :
    m.Legal ↔
      Symbol.MethodName m.name ∧ m.descriptor.IsCanonical ∧
        ∀ t ∈ m.descriptor.params, PlainObject t := by
  constructor
  · rintro ⟨name, ⟨s, parsed⟩, objects⟩
    refine ⟨name, (MethodDescriptor.parse_eq_ok_iff.mp parsed).1, ?_⟩
    intro t member
    cases t with
    | object c => exact objects c member
    | _ => trivial
  · rintro ⟨name, canonical, plain⟩
    exact ⟨name, ⟨_, canonical.parse_encode⟩, fun c member =>
      plain (.object c) member⟩

instance (m : Method) : Decidable m.Legal :=
  decidable_of_iff _ Method.legal_iff.symm

end Decidable

namespace Symbol

section Plain

theorem OpensPlainly.append {a b : List Char} (left : OpensPlainly a)
    (right : OpensPlainly b) : OpensPlainly (a ++ b) := by
  cases a with
  | nil => exact right
  | cons c a => exact left

/-- Readable texts are joined where the second opens no escape. -/
theorem Readable.append {a b : List Char} (left : Readable a)
    (right : Readable b) (opens : OpensPlainly b) : Readable (a ++ b) where
  noDot := by
    simp [left.noDot, right.noDot]
  plain := List.IsChain.append left.plain right.plain
    fun _ _ d member _ => opens d member

theorem Readable.cons_slash {cs : List Char} (readable : Readable cs)
    (opens : OpensPlainly cs) :
    Readable ('/' :: cs) ∧ OpensPlainly ('/' :: cs) := by
  refine ⟨Readable.append (a := ['/']) ⟨by decide, .singleton '/'⟩
    readable opens, ?_⟩
  rintro d ⟨⟩
  rfl

/-- A text without separators is readable. -/
theorem readable_of_not_mem {cs : List Char} (noSlash : '/' ∉ cs)
    (noDot : '.' ∉ cs) : Readable cs where
  noDot := noDot
  plain := by
    have chain := isChain_append_of_not_mem
      (R := fun a b => a = '/' → isEscapeDigit b = false)
      (fun _ _ other same => absurd same other) noSlash .nil
    rwa [List.append_nil] at chain

/-- A text between slashes: no segment is empty or opens an escape. -/
def Segmented (cs : List Char) : Prop :=
  ∀ s ∈ fields '/' cs, s ≠ [] ∧ OpensPlainly s

theorem Segmented.of_append {f rest : List Char} (clear : '/' ∉ f)
    (segmented : Segmented (f ++ '/' :: rest)) :
    (f ≠ [] ∧ OpensPlainly f) ∧ Segmented rest := by
  rw [Segmented, fields_append_cons clear, List.forall_mem_cons] at segmented
  exact segmented

/-- A segmented text starts with a character that is no slash. -/
theorem Segmented.exists_eq_cons {cs : List Char}
    (segmented : Segmented cs) :
    ∃ c rest, cs = c :: rest ∧ c ≠ '/' ∧ isEscapeDigit c = false := by
  have first : ∀ f rest : List Char, '/' ∉ f → f ≠ [] → OpensPlainly f →
      ∃ c tail, f ++ rest = c :: tail ∧ c ≠ '/' ∧
        isEscapeDigit c = false := by
    intro f rest clear nonempty opens
    cases f with
    | nil => exact absurd rfl nonempty
    | cons c f =>
        simp only [List.mem_cons, not_or] at clear
        exact ⟨c, f ++ rest, rfl, Ne.symm clear.1, opens c rfl⟩
  rcases eq_field_or_append '/' cs with clear | ⟨f, rest, clear, rfl⟩
  · rw [Segmented, fields_of_not_mem clear] at segmented
    obtain ⟨nonempty, opens⟩ := segmented cs List.mem_cons_self
    have found := first cs [] clear nonempty opens
    rwa [List.append_nil] at found
  · obtain ⟨⟨nonempty, opens⟩, -⟩ := segmented.of_append clear
    exact first f _ clear nonempty opens

theorem Segmented.opensPlainly {cs : List Char} (segmented : Segmented cs) :
    OpensPlainly cs := by
  obtain ⟨c, rest, rfl, -, plain⟩ := segmented.exists_eq_cons
  rintro d ⟨⟩
  exact plain

/-- A segmented text has no two slashes together. -/
theorem Segmented.single {cs : List Char} (segmented : Segmented cs) :
    Single '/' cs := by
  induction cs using fields_induction '/' with
  | last f clear =>
      have single := (single_nil '/').append_left clear
      rwa [List.append_nil] at single
  | field f rest clear ih =>
      obtain ⟨-, behind⟩ := segmented.of_append clear
      obtain ⟨c, tail, rfl, other, -⟩ := behind.exists_eq_cons
      exact ((ih behind).cons_sep other).append_left clear

/-- A segmented text without dots is readable. -/
theorem Segmented.readable {cs : List Char} (segmented : Segmented cs)
    (noDot : '.' ∉ cs) : Readable cs := by
  induction cs using fields_induction '/' with
  | last f clear =>
      exact readable_of_not_mem clear noDot
  | field f rest clear ih =>
      obtain ⟨-, behind⟩ := segmented.of_append clear
      simp only [List.mem_append, List.mem_cons, not_or] at noDot
      obtain ⟨noDotF, -, noDotRest⟩ := noDot
      obtain ⟨slash, opens⟩ :=
        (ih behind noDotRest).cons_slash behind.opensPlainly
      exact (readable_of_not_mem clear noDotF).append slash opens

end Plain

end Symbol

namespace ClassName.Legal

variable {c : ClassName}

theorem segmented (legal : c.Legal) : Symbol.Segmented c.internal.toList := by
  intro s member
  have segment := List.all_eq_true.mp legal.valid s member
  simp only [isSegment, Bool.and_eq_true, Bool.not_eq_true',
    List.isEmpty_eq_false_iff] at segment
  exact ⟨segment.1, legal.plain s member⟩

theorem dot_not_mem (legal : c.Legal) : '.' ∉ c.internal.toList :=
  fun member => (ne_of_mem_of_isValid legal.valid member).1 rfl

theorem readable (legal : c.Legal) : Symbol.Readable c.internal.toList :=
  legal.segmented.readable legal.dot_not_mem

theorem ofString : ClassName.string.Legal := by
  decide

end ClassName.Legal

namespace Symbol

section Paths

/-- The text that a short symbol is the mangled form of. -/
def path (owner : ClassName) (method : String) : List Char :=
  owner.internal.toList ++ '/' :: method.toList

/-- The text that a symbol is the mangled form of. -/
def pathWith (owner : ClassName) (method : String) :
    Option String → List Char
  | none => path owner method
  | some params => path owner method ++ '/' :: '/' :: params.toList

/-- The symbol of a method, with or without its parameters. -/
def nameWith (owner : ClassName) (method : String) : Option String → String
  | none => shortName owner.internal method
  | some params => longName owner.internal method params

theorem toList_nameWith (owner : ClassName) (method : String)
    (params : Option String) :
    (nameWith owner method params).toList =
      "Java_".toList ++ mangleChars (pathWith owner method params) := by
  have slash : ∀ cs, mangleChars ('/' :: cs) = '_' :: mangleChars cs :=
    fun _ => rfl
  cases params <;>
    simp [nameWith, shortName, longName, pathWith, path, slash]

variable {owner : ClassName} {method : String}

theorem MethodName.slash_not_mem (name : MethodName method) :
    '/' ∉ method.toList :=
  fun member => (name.allowed '/' member).2.1 rfl

theorem MethodName.dot_not_mem (name : MethodName method) :
    '.' ∉ method.toList :=
  fun member => (name.allowed '.' member).1 rfl

theorem segmented_path (legal : owner.Legal) (name : MethodName method) :
    Segmented (path owner method) := by
  intro s member
  rw [path, fields_append_cons_last name.slash_not_mem, List.mem_append,
    List.mem_singleton] at member
  rcases member with member | rfl
  · exact legal.segmented s member
  · refine ⟨fun empty => name.nonempty ?_, name.plain⟩
    rw [← String.ofList_toList (s := method), empty]

theorem readable_path (legal : owner.Legal) (name : MethodName method) :
    Readable (path owner method) := by
  apply (segmented_path legal name).readable
  simp only [path, List.mem_append, List.mem_cons, not_or]
  exact ⟨legal.dot_not_mem, by decide, name.dot_not_mem⟩

/-- Parameters that a long symbol tells. -/
def PlainParams (params : String) : Prop :=
  Readable params.toList ∧ OpensPlainly params.toList

theorem readable_pathWith (legal : owner.Legal) (name : MethodName method)
    {params : Option String} (plain : ∀ p ∈ params, PlainParams p) :
    Readable (pathWith owner method params) := by
  have path := readable_path legal name
  cases params with
  | none => exact path
  | some params =>
      obtain ⟨readable, opens⟩ := plain params rfl
      obtain ⟨readable, opens⟩ := readable.cons_slash opens
      obtain ⟨readable, opens⟩ := readable.cons_slash opens
      exact path.append readable opens

/-- Paths with legal names tell them. -/
theorem path_inj {owner' : ClassName} {method' : String}
    (name : MethodName method) (name' : MethodName method')
    (eq : path owner method = path owner' method') :
    owner = owner' ∧ method = method' := by
  obtain ⟨owners, methods⟩ := append_cons_inj_of_not_mem_right
    name.slash_not_mem name'.slash_not_mem eq
  constructor
  · cases owner
    cases owner'
    rw [String.toList_inj] at owners
    exact congrArg ClassName.mk owners
  · exact String.toList_inj.mp methods

/--
Symbols of methods with legal names tell the class, the method, and the
parameters where they have them. A short symbol is never a long one.
-/
theorem nameWith_inj {owner' : ClassName} {method' : String}
    {params params' : Option String}
    (legal : owner.Legal) (name : MethodName method)
    (plain : ∀ p ∈ params, PlainParams p)
    (legal' : owner'.Legal) (name' : MethodName method')
    (plain' : ∀ p ∈ params', PlainParams p)
    (eq : nameWith owner method params = nameWith owner' method' params') :
    owner = owner' ∧ method = method' ∧ params = params' := by
  have texts : pathWith owner method params =
      pathWith owner' method' params' := by
    apply mangleChars_inj (readable_pathWith legal name plain)
      (readable_pathWith legal' name' plain')
    have lists := congrArg String.toList eq
    rw [toList_nameWith, toList_nameWith] at lists
    exact List.append_cancel_left lists
  have single := (segmented_path legal name).single
  have single' := (segmented_path legal' name').single
  cases params with
  | none =>
      cases params' with
      | none =>
          obtain ⟨rfl, rfl⟩ := path_inj name name' texts
          exact ⟨rfl, rfl, rfl⟩
      | some p' => exact absurd texts (single.ne_append_pair _ _)
  | some p =>
      cases params' with
      | none => exact absurd texts.symm (single'.ne_append_pair _ _)
      | some p' =>
          obtain ⟨paths, params⟩ := single.append_pair_inj single' texts
          obtain ⟨rfl, rfl⟩ := path_inj name name' paths
          rw [String.toList_inj] at params
          exact ⟨rfl, rfl, congrArg some params⟩

end Paths

section Parameters

/-- Nothing that starts a type or stands in a code makes an escape. -/
theorem readable_code (kind : Primitive) :
    Readable [kind.code] ∧ OpensPlainly [kind.code] := by
  refine ⟨⟨?_, .singleton _⟩, ?_⟩
  · cases kind <;> decide
  · rintro c ⟨⟩
    cases kind <;> decide

/-- A type that is mapped is told by its descriptor, if it is legal. -/
theorem readable_chars {owning : Bool} {t : TypeDescriptor} {p : MappedType}
    (mapped : Mapping.mapType .param owning t = .ok p)
    (legal : ∀ name, t = .object name → name.Legal) :
    Readable t.chars ∧ OpensPlainly t.chars := by
  have reference : ∀ name : ClassName, name.Legal →
      Readable ('L' :: (name.internal.toList ++ [';'])) ∧
        OpensPlainly ('L' :: (name.internal.toList ++ [';'])) := by
    intro name legal
    have inner : Readable (name.internal.toList ++ [';']) :=
      legal.readable.append ⟨by decide, .singleton ';'⟩
        (by rintro c ⟨⟩; rfl)
    have opens : OpensPlainly (name.internal.toList ++ [';']) :=
      legal.segmented.opensPlainly.append (by rintro c ⟨⟩; rfl)
    exact ⟨Readable.append (a := ['L']) ⟨by decide, .singleton 'L'⟩ inner
      opens, by rintro c ⟨⟩; rfl⟩
  rcases Mapping.mapType_cases mapped with
    ⟨kind, rfl, -⟩ | ⟨rfl, -⟩ | ⟨name, rfl, -⟩ | ⟨kind, dimensions, rfl, -⟩
  · exact readable_code kind
  · exact reference .string ClassName.Legal.ofString
  · exact reference name (legal name rfl)
  · obtain ⟨readable, opens⟩ := readable_code kind
    have brackets : Readable (List.replicate dimensions '[') :=
      readable_of_not_mem (by simp) (by simp)
    refine ⟨brackets.append readable opens, OpensPlainly.append ?_ opens⟩
    intro c member
    obtain rfl := List.eq_of_mem_replicate (List.mem_of_mem_head? member)
    rfl

/-- The parameters of a mapped method are told by a long symbol. -/
theorem plainParams_of_mapMethod {owner : ClassName} {m : Method}
    {mapped : MappedMethod} (legal : m.Legal)
    (accepted : Mapping.mapMethod owner m = .ok mapped) :
    PlainParams m.descriptor.encodeParams := by
  obtain ⟨-, params, -⟩ := Mapping.mapMethod_eq_ok accepted
  obtain ⟨s, parsed⟩ := legal.parsed
  have canonical := (MethodDescriptor.parse_eq_ok_iff.mp parsed).1
  have each : ∀ t ∈ m.descriptor.params,
      Readable t.chars ∧ OpensPlainly t.chars := by
    intro t member
    obtain ⟨p, -, mapped⟩ := (Mapping.mem_mapParams params).1 t member
    refine readable_chars mapped ?_
    rintro name rfl
    exact ⟨(canonical.params _ member).1.1, legal.objects name member⟩
  have all : ∀ ts : List TypeDescriptor,
      (∀ t ∈ ts, Readable t.chars ∧ OpensPlainly t.chars) →
      Readable (ts.flatMap TypeDescriptor.chars) ∧
        OpensPlainly (ts.flatMap TypeDescriptor.chars) := by
    intro ts
    induction ts with
    | nil =>
        intro _
        exact ⟨⟨by simp, .nil⟩, by rintro c ⟨⟩⟩
    | cons t ts ih =>
        intro plain
        rw [List.forall_mem_cons] at plain
        obtain ⟨readable, opens⟩ := ih plain.2
        rw [List.flatMap_cons]
        exact ⟨plain.1.1.append readable opens, plain.1.2.append opens⟩
  rw [PlainParams, MethodDescriptor.encodeParams, String.toList_ofList]
  exact all _ each

end Parameters

section Numbered

theorem MethodName.single {method : String} (name : MethodName method) :
    Single '_' (mangleChars method.toList) :=
  single_mangleChars name.slash_not_mem name.dot_not_mem

theorem MethodName.mangleChars_inj {a b : String} (left : MethodName a)
    (right : MethodName b)
    (eq : mangleChars a.toList = mangleChars b.toList) : a = b :=
  String.toList_inj.mp (Symbol.mangleChars_inj
    (readable_of_not_mem left.slash_not_mem left.dot_not_mem)
    (readable_of_not_mem right.slash_not_mem right.dot_not_mem) eq)

/-- The symbol of a method with the number among its overloads, if any. -/
def numbered (owner : ClassName) (method : String) : Option Nat → String
  | none => shortName owner.internal method
  | some index => shortName owner.internal method ++ "__" ++ toString index

/-- Numbered symbols of a class tell the method and its number. -/
theorem numbered_inj (owner : ClassName) {a b : String} {i j : Option Nat}
    (left : MethodName a) (right : MethodName b)
    (eq : numbered owner a i = numbered owner b j) : a = b ∧ i = j := by
  have lists := congrArg String.toList eq
  cases i with
  | none =>
      cases j with
      | none =>
          simp only [numbered, shortName, String.toList_append,
            toList_mangle] at lists
          exact ⟨left.mangleChars_inj right
            (List.append_cancel_left lists), rfl⟩
      | some j =>
          simp only [numbered, shortName, String.toList_append,
            toList_mangle, List.append_assoc, List.append_cancel_left_eq]
            at lists
          exact absurd lists (left.single.ne_append_pair _ _)
  | some i =>
      cases j with
      | none =>
          simp only [numbered, shortName, String.toList_append,
            toList_mangle, List.append_assoc, List.append_cancel_left_eq]
            at lists
          exact absurd lists.symm (right.single.ne_append_pair _ _)
      | some j =>
          simp only [numbered, shortName, String.toList_append,
            toList_mangle, List.append_assoc, List.append_cancel_left_eq]
            at lists
          obtain ⟨methods, numbers⟩ :=
            left.single.append_pair_inj right.single lists
          have same : toString i = toString j := String.toList_inj.mp numbers
          exact ⟨left.mangleChars_inj right methods,
            congrArg some (eq_of_toString_eq same)⟩

end Numbered

end Symbol

end NativeGlue
