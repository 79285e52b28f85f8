import NativeGlue.Descriptor.Parser
import NativeGlue.Proofs.Text.Separators
import Mathlib.Data.List.TakeWhile

/-!
# Descriptors and their types

A text is read as a type exactly if it is the descriptor of that type and the
type is canonical, that is, built as descriptors spell types. Every reader is
described by what it accepts together with any text that follows, so the
descriptions of the larger readers are put together from the smaller ones.
-/

namespace NativeGlue

section Names

theorem Text.exists_mem_fields {sep c : Char} {cs : List Char}
    (other : c ≠ sep) (member : c ∈ cs) : ∃ f ∈ fields sep cs, c ∈ f := by
  induction cs using fields_induction sep with
  | last f clear =>
      rw [fields_of_not_mem clear]
      exact ⟨f, List.mem_singleton_self f, member⟩
  | field f rest clear ih =>
      rw [fields_append_cons clear]
      simp only [List.mem_append, List.mem_cons, other, false_or] at member
      rcases member with inside | inside
      · exact ⟨f, List.mem_cons_self, inside⟩
      · obtain ⟨g, among, inside⟩ := ih inside
        exact ⟨g, List.mem_cons_of_mem f among, inside⟩

/-- A valid name has none of the characters that end or open a type. -/
theorem ClassName.ne_of_mem_of_isValid {name : ClassName}
    (valid : name.isValid = true) {c : Char}
    (member : c ∈ name.internal.toList) : c ≠ '.' ∧ c ≠ ';' ∧ c ≠ '[' := by
  by_cases slash : c = '/'
  · subst slash
    decide
  · obtain ⟨f, among, inside⟩ := Text.exists_mem_fields slash member
    have segment := List.all_eq_true.mp valid f among
    simp only [isSegment, Bool.and_eq_true] at segment
    have allowed := List.all_eq_true.mp segment.2 c inside
    simpa [and_assoc] using allowed

/-- The first separator divides a text in one way. -/
theorem Text.splitFirst?_eq_some_iff {sep : Char}
    {text front back : List Char} :
    splitFirst? sep text = some (front, back) ↔
      sep ∉ front ∧ text = front ++ sep :: back := by
  induction text generalizing front with
  | nil =>
      simp [splitFirst?]
  | cons c cs ih =>
      rw [splitFirst?]
      split
      · rename_i same
        subst same
        cases front with
        | nil =>
            simp [eq_comm]
        | cons d front =>
            simp only [Option.some.injEq, Prod.mk.injEq, List.cons_append,
              List.cons.injEq, List.mem_cons, not_or]
            constructor
            · rintro ⟨⟨⟩, -⟩
            · rintro ⟨⟨differs, -⟩, same, -⟩
              exact absurd same differs
      · rename_i differs
        cases front with
        | nil =>
            simp [differs]
        | cons d front =>
            simp only [Option.map_eq_some_iff, Prod.exists, Prod.mk.injEq,
              List.cons.injEq, List.mem_cons, not_or, List.cons_append]
            constructor
            · rintro ⟨f, b, eq, ⟨rfl, rfl⟩, rfl⟩
              obtain ⟨clear, rfl⟩ := ih.mp eq
              exact ⟨⟨Ne.symm differs, clear⟩, rfl, rfl⟩
            · rintro ⟨⟨-, clear⟩, rfl, rest⟩
              exact ⟨front, back, ih.mpr ⟨clear, rest⟩, ⟨rfl, rfl⟩, rfl⟩

end Names

namespace TypeDescriptor

/-- Whether the type is an array. -/
def isArray : TypeDescriptor → Bool
  | array _ _ => true
  | _ => false

/--
A type as descriptors spell it: names are valid, `java.lang.String` is no
object, and an array has its dimensions counted over an element that is none.
-/
def IsCanonical : TypeDescriptor → Prop
  | primitive _ => True
  | string => True
  | object name => name.isValid = true ∧ name ≠ .string
  | array element dimensions =>
      (0 < dimensions ∧ dimensions ≤ maxDimensions) ∧
        element.isArray = false ∧ element ≠ void ∧ element.IsCanonical

instance decidableIsCanonical : (t : TypeDescriptor) →
    Decidable t.IsCanonical
  | primitive _ => .isTrue trivial
  | string => .isTrue trivial
  | object name =>
      inferInstanceAs (Decidable (name.isValid = true ∧ name ≠ .string))
  | array element dimensions =>
      have := decidableIsCanonical element
      inferInstanceAs (Decidable
        ((0 < dimensions ∧ dimensions ≤ maxDimensions) ∧
          element.isArray = false ∧ element ≠ void ∧ element.IsCanonical))

@[simp] theorem chars_ofClass (name : ClassName) :
    (ofClass name).chars = 'L' :: (name.internal.toList ++ [';']) := by
  unfold ofClass ClassName.isString
  split
  · rename_i same
    simp only [decide_eq_true_eq] at same
    subst same
    rfl
  · rfl

@[simp] theorem isArray_ofClass (name : ClassName) :
    (ofClass name).isArray = false := by
  unfold ofClass
  split <;> rfl

theorem ofClass_ne_void (name : ClassName) : ofClass name ≠ void := by
  unfold ofClass
  split <;> simp [void]

theorem isCanonical_ofClass {name : ClassName}
    (valid : name.isValid = true) : (ofClass name).IsCanonical := by
  unfold ofClass
  split
  · trivial
  · rename_i other
    exact ⟨valid, by simpa [ClassName.isString] using other⟩

/-- An array over what is no array has just the given dimensions. -/
theorem arrayOf_of_not_isArray {element : TypeDescriptor}
    (single : element.isArray = false) (dimensions : Nat) :
    element.arrayOf dimensions = array element dimensions := by
  cases element with
  | array element inner => cases single
  | _ => rfl

/-- A type that is no array does not start like one. -/
theorem exists_chars_eq_cons {t : TypeDescriptor}
    (single : t.isArray = false) :
    ∃ c cs, t.chars = c :: cs ∧ c ≠ '[' ∧ c ≠ ')' := by
  cases t with
  | array element dimensions => cases single
  | primitive kind =>
      refine ⟨kind.code, [], rfl, ?_⟩
      cases kind <;> decide
  | _ => exact ⟨'L', _, rfl, by decide⟩

theorem head?_chars_append_ne (t : TypeDescriptor)
    (canonical : t.IsCanonical) (rest : List Char) :
    ∃ c cs, t.chars ++ rest = c :: cs ∧ c ≠ ')' := by
  cases single : t.isArray with
  | false =>
      obtain ⟨c, cs, eq, -, other⟩ := exists_chars_eq_cons single
      exact ⟨c, cs ++ rest, by rw [eq, List.cons_append], other⟩
  | true =>
      cases t with
      | array element dimensions =>
          obtain ⟨⟨positive, -⟩, -⟩ := canonical
          obtain ⟨n, rfl⟩ := Nat.exists_eq_succ_of_ne_zero positive.ne'
          exact ⟨'[', _, rfl, by decide⟩
      | _ => cases single

end TypeDescriptor

/-- A method descriptor all of whose types are canonical. -/
structure MethodDescriptor.IsCanonical (d : MethodDescriptor) : Prop where
  params : ∀ t ∈ d.params, t.IsCanonical ∧ t ≠ .void
  ret : d.ret.IsCanonical

instance (d : MethodDescriptor) : Decidable d.IsCanonical :=
  decidable_of_iff
    ((∀ t ∈ d.params, t.IsCanonical ∧ t ≠ .void) ∧ d.ret.IsCanonical)
    ⟨fun ⟨params, ret⟩ => ⟨params, ret⟩, fun ⟨params, ret⟩ => ⟨params, ret⟩⟩

namespace Descriptor

open TypeDescriptor

/-- Reading a class takes a valid name and the semicolon after it. -/
theorem readClass_eq_ok_iff {text rest : List Char} {t : TypeDescriptor} :
    readClass text = .ok (t, rest) ↔
      ∃ name : ClassName, name.isValid = true ∧ t = ofClass name ∧
        text = name.internal.toList ++ ';' :: rest := by
  constructor
  · intro read
    unfold readClass at read
    split at read
    · cases read
    · rename_i name after divided
      obtain ⟨-, eq⟩ := Text.splitFirst?_eq_some_iff.mp divided
      simp only at read
      split at read
      · rename_i valid
        cases read
        refine ⟨_, valid, rfl, ?_⟩
        rw [String.toList_ofList]
        exact eq
      · cases read
  · rintro ⟨name, valid, rfl, rfl⟩
    have clear : ';' ∉ name.internal.toList := by
      intro member
      exact (ClassName.ne_of_mem_of_isValid valid member).2.1 rfl
    have divided := Text.splitFirst?_eq_some_iff.mpr
      ⟨clear, Eq.refl (name.internal.toList ++ ';' :: rest)⟩
    simp only [readClass, divided, String.ofList_toList, valid, if_true]

/-- Reading an element takes a canonical type that is no array. -/
theorem readElement_eq_ok_iff {allowVoid : Bool} {text rest : List Char}
    {t : TypeDescriptor} :
    readElement allowVoid text = .ok (t, rest) ↔
      t.IsCanonical ∧ t.isArray = false ∧ (t = void → allowVoid = true) ∧
        text = t.chars ++ rest := by
  constructor
  · intro read
    cases text with
    | nil => cases read
    | cons c text =>
        rw [readElement] at read
        split at read
        · rename_i letter
          obtain ⟨name, valid, rfl, rfl⟩ := readClass_eq_ok_iff.mp read
          refine ⟨isCanonical_ofClass valid, isArray_ofClass name,
            fun same => absurd same (ofClass_ne_void name), ?_⟩
          simp [letter]
        · split at read
          · cases read
          · rename_i kind code
            split at read
            · cases read
            · rename_i allowed
              cases read
              refine ⟨trivial, rfl, ?_, ?_⟩
              · rintro ⟨⟩
                simpa [Primitive.isVoid] using allowed
              · rw [chars, Primitive.ofCode?_eq_some code]
                rfl
  · rintro ⟨canonical, single, allowed, rfl⟩
    cases t with
    | primitive kind =>
        have letter : kind.code ≠ 'L' := by
          cases kind <;> decide
        have permitted : (kind.isVoid && !allowVoid) = false := by
          cases kind <;> first | rfl | simp [allowed rfl]
        simp [chars, readElement, letter, permitted]
    | object name =>
        obtain ⟨valid, other⟩ := canonical
        have read := readClass_eq_ok_iff.mpr
          ⟨name, valid, Eq.refl (ofClass name),
            Eq.refl (name.internal.toList ++ ';' :: rest)⟩
        have plain : ofClass name = object name := by
          simp [ofClass, ClassName.isString, other]
        simp [chars, readElement, read, plain]
    | array element dimensions => cases single
    | string =>
        have read := readClass_eq_ok_iff.mpr
          ⟨.string, by decide, Eq.refl (ofClass .string),
            Eq.refl (ClassName.string.internal.toList ++ ';' :: rest)⟩
        have plain : ofClass .string = string := rfl
        simp [chars, readElement, read, plain]

/-- Brackets in front of another character are taken off together. -/
theorem brackets_append {c : Char} (other : c ≠ '[') (n : Nat)
    (cs : List Char) :
    (List.replicate n '[' ++ c :: cs).takeWhile (· = '[') =
        List.replicate n '[' ∧
      (List.replicate n '[' ++ c :: cs).dropWhile (· = '[') = c :: cs := by
  constructor
  · rw [List.takeWhile_append_of_pos]
    · simp [other]
    · simp
  · rw [List.dropWhile_append_of_pos]
    · simp [other]
    · simp

/-- Reading a type takes a canonical type. -/
theorem readType_eq_ok_iff {allowVoid : Bool} {text rest : List Char}
    {t : TypeDescriptor} :
    readType allowVoid text = .ok (t, rest) ↔
      t.IsCanonical ∧ (t = void → allowVoid = true) ∧
        text = t.chars ++ rest := by
  constructor
  · intro read
    obtain ⟨n, count⟩ : ∃ n, n = (text.takeWhile (· = '[')).length :=
      ⟨_, rfl⟩
    have brackets : text.takeWhile (· = '[') = List.replicate n '[' := by
      rw [List.eq_replicate_iff]
      refine ⟨count.symm, fun c member => ?_⟩
      simpa using List.mem_takeWhile_imp member
    have divided : text =
        List.replicate n '[' ++ text.dropWhile (· = '[') := by
      rw [← brackets, List.takeWhile_append_dropWhile]
    simp only [readType, ← count] at read
    split at read
    · cases read
    · rename_i few
      split at read
      · cases read
      · rename_i element after body
        obtain ⟨canonical, single, allowed, eq⟩ :=
          readElement_eq_ok_iff.mp body
        rw [eq] at divided
        split at read
        · rename_i none
          cases read
          subst none
          refine ⟨canonical, ?_, divided⟩
          simpa using allowed
        · rename_i some
          cases read
          rw [arrayOf_of_not_isArray single]
          have notVoid : element ≠ void := by
            intro same
            simpa [some] using allowed same
          refine ⟨⟨⟨Nat.pos_of_ne_zero some, not_lt.mp few⟩, single, notVoid,
            canonical⟩, ?_, ?_⟩
          · rintro ⟨⟩
          · rw [chars, List.append_assoc]
            exact divided
  · rintro ⟨canonical, allowed, rfl⟩
    cases single : t.isArray with
    | false =>
        obtain ⟨c, cs, eq, other, -⟩ := exists_chars_eq_cons single
        have read := readElement_eq_ok_iff.mpr
          ⟨canonical, single, allowed, Eq.refl (t.chars ++ rest)⟩
        obtain ⟨front, back⟩ := brackets_append other 0 (cs ++ rest)
        rw [eq, List.cons_append] at read ⊢
        simp only [List.replicate_zero, List.nil_append] at front back
        simp [readType, front, back, read]
    | true =>
        cases t with
        | array element dimensions =>
            obtain ⟨⟨positive, few⟩, single, notVoid, canonical⟩ := canonical
            obtain ⟨c, cs, eq, other, -⟩ := exists_chars_eq_cons single
            have read : readElement false (element.chars ++ rest) =
                .ok (element, rest) :=
              readElement_eq_ok_iff.mpr
                ⟨canonical, single, fun same => absurd same notVoid, rfl⟩
            obtain ⟨front, back⟩ :=
              brackets_append other dimensions (cs ++ rest)
            rw [eq, List.cons_append] at read
            rw [chars, List.append_assoc, eq, List.cons_append, readType,
              front, back]
            simp [read, positive.ne', not_lt.mpr few,
              arrayOf_of_not_isArray single]
        | _ => cases single

/-- Reading parameters takes canonical types and the parenthesis after them. -/
theorem readParams_eq_ok_iff {text rest : List Char}
    {ts : List TypeDescriptor} :
    readParams text = .ok (ts, rest) ↔
      (∀ t ∈ ts, t.IsCanonical ∧ t ≠ void) ∧
        text = ts.flatMap chars ++ ')' :: rest := by
  constructor
  · intro read
    induction text using readParams.induct generalizing ts rest with
    | case1 =>
        simp [readParams] at read
    | case2 =>
        simp only [readParams, if_true] at read
        cases read
        simp
    | case3 c cs other stop failed =>
        rw [readParams, if_neg other] at read
        split at read
        · cases read
        · rename_i first
          rw [failed] at first
          cases first
    | case4 c cs other t after first _ stop failed _ =>
        rw [readParams, if_neg other] at read
        split at read
        · cases read
        · rename_i again
          rw [first] at again
          cases again
          rw [failed] at read
          cases read
    | case5 c cs other t after first _ us rest' others ih =>
        rw [readParams, if_neg other] at read
        split at read
        · cases read
        · rename_i again
          rw [first] at again
          cases again
          rw [others] at read
          cases read
          obtain ⟨canonical, eq⟩ := ih others
          obtain ⟨wellSpelled, allowed, text⟩ :=
            readType_eq_ok_iff.mp first
          refine ⟨?_, ?_⟩
          · rw [List.forall_mem_cons]
            refine ⟨⟨wellSpelled, fun same => ?_⟩, canonical⟩
            cases allowed same
          · rw [text, eq, List.flatMap_cons, List.append_assoc]
  · rintro ⟨canonical, rfl⟩
    induction ts with
    | nil =>
        simp [readParams]
    | cons t ts ih =>
        rw [List.forall_mem_cons] at canonical
        obtain ⟨⟨wellSpelled, notVoid⟩, others⟩ := canonical
        rw [List.flatMap_cons, List.append_assoc]
        obtain ⟨c, cs, eq, other⟩ := head?_chars_append_ne t wellSpelled
          (ts.flatMap chars ++ ')' :: rest)
        have first : readType false
            (t.chars ++ (ts.flatMap chars ++ ')' :: rest)) =
              .ok (t, ts.flatMap chars ++ ')' :: rest) :=
          readType_eq_ok_iff.mpr
            ⟨wellSpelled, fun same => absurd same notVoid, rfl⟩
        rw [eq] at first ⊢
        rw [readParams, if_neg other]
        split
        · rename_i stop failed
          rw [first] at failed
          cases failed
        · rename_i t' after first'
          rw [first] at first'
          cases first'
          simp [ih others]

theorem readMethod_eq_ok_iff {text rest : List Char}
    {d : MethodDescriptor} :
    readMethod text = .ok (d, rest) ↔
      d.IsCanonical ∧ text = d.chars ++ rest := by
  constructor
  · intro read
    cases text with
    | nil => cases read
    | cons c text =>
        rw [readMethod] at read
        split at read
        · rename_i opening
          split at read
          · cases read
          · rename_i ts after params
            split at read
            · cases read
            · rename_i ret rest' result
              cases read
              obtain ⟨canonical, eq⟩ := readParams_eq_ok_iff.mp params
              obtain ⟨wellSpelled, -, text'⟩ :=
                readType_eq_ok_iff.mp result
              refine ⟨⟨canonical, wellSpelled⟩, ?_⟩
              simp [MethodDescriptor.chars, MethodDescriptor.paramChars,
                opening, eq, text']
        · cases read
  · rintro ⟨⟨canonical, wellSpelled⟩, rfl⟩
    have params := readParams_eq_ok_iff.mpr
      ⟨canonical, Eq.refl (d.params.flatMap chars
        ++ ')' :: (d.ret.chars ++ rest))⟩
    have result : readType true (d.ret.chars ++ rest) =
        .ok (d.ret, rest) :=
      readType_eq_ok_iff.mpr ⟨wellSpelled, fun _ => rfl, rfl⟩
    simp [MethodDescriptor.chars, MethodDescriptor.paramChars, readMethod,
      params, result]

/-- A text is parsed if it is read to its end. -/
theorem parse_eq_ok_iff {α : Type} {read : List Char → Read α} {s : String}
    {value : α} :
    parse read s = .ok value ↔ read s.toList = .ok (value, []) := by
  unfold parse
  simp only
  split <;> simp_all

end Descriptor

/-- Parsing accepts the descriptors of canonical types. -/
theorem TypeDescriptor.parse_eq_ok_iff {s : String} {t : TypeDescriptor} :
    TypeDescriptor.parse s = .ok t ↔ t.IsCanonical ∧ t.encode = s := by
  rw [TypeDescriptor.parse, Descriptor.parse_eq_ok_iff,
    Descriptor.readType_eq_ok_iff, List.append_nil, encode]
  constructor
  · rintro ⟨canonical, -, eq⟩
    exact ⟨canonical, by rw [← eq, String.ofList_toList]⟩
  · rintro ⟨canonical, rfl⟩
    exact ⟨canonical, fun _ => rfl, String.toList_ofList⟩

namespace MethodDescriptor

/-- Parsing accepts the descriptors of methods with canonical types. -/
theorem parse_eq_ok_iff {s : String} {d : MethodDescriptor} :
    MethodDescriptor.parse s = .ok d ↔ d.IsCanonical ∧ d.encode = s := by
  rw [MethodDescriptor.parse, Descriptor.parse_eq_ok_iff,
    Descriptor.readMethod_eq_ok_iff, List.append_nil, encode]
  constructor
  · rintro ⟨canonical, eq⟩
    exact ⟨canonical, by rw [← eq, String.ofList_toList]⟩
  · rintro ⟨canonical, rfl⟩
    exact ⟨canonical, String.toList_ofList⟩

theorem IsCanonical.parse_encode {d : MethodDescriptor}
    (canonical : d.IsCanonical) : MethodDescriptor.parse d.encode = .ok d :=
  parse_eq_ok_iff.mpr ⟨canonical, rfl⟩

/-- The parameters of a descriptor are found whatever follows them. -/
theorem IsCanonical.params_eq {a b : MethodDescriptor}
    (left : a.IsCanonical) (right : b.IsCanonical) {s t : List Char}
    (eq : a.paramChars ++ ')' :: s = b.paramChars ++ ')' :: t) :
    a.params = b.params := by
  have readLeft := Descriptor.readParams_eq_ok_iff.mpr
    ⟨left.params, Eq.refl (a.paramChars ++ ')' :: s)⟩
  have readRight := Descriptor.readParams_eq_ok_iff.mpr
    ⟨right.params, Eq.refl (b.paramChars ++ ')' :: t)⟩
  rw [eq, readRight] at readLeft
  exact (Prod.mk.inj (Except.ok.inj readLeft)).1.symm

theorem IsCanonical.params_eq_of_encodeParams {a b : MethodDescriptor}
    (left : a.IsCanonical) (right : b.IsCanonical)
    (eq : a.encodeParams = b.encodeParams) : a.params = b.params := by
  refine left.params_eq right (s := []) (t := []) ?_
  rw [encodeParams, encodeParams, String.ofList_inj] at eq
  rw [eq]

theorem IsCanonical.encode_inj {a b : MethodDescriptor}
    (left : a.IsCanonical) (right : b.IsCanonical)
    (eq : a.encode = b.encode) : a = b := by
  have parsed := left.parse_encode
  rw [eq, right.parse_encode] at parsed
  exact (Except.ok.inj parsed).symm

end MethodDescriptor

end NativeGlue
