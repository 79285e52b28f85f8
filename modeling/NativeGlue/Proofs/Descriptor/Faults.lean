import NativeGlue.Proofs.Descriptor.RoundTrip

/-!
# Where descriptors are at fault

**Input.** Any text that is refused as a type or a method.

The offset of the error lies between two characters of the text, and the fault
is there to be seen: the text ends, or goes on with the character that is
reported, with `V`, with the brackets that are too many, or, behind an `L`,
with the name that is not valid; or what stands in front of the offset is
accepted by itself.

There is one exception. A method that does not open with a parenthesis is
refused for its first byte, and beyond ASCII this is not its first character.

Main statement: `parse_faults_located`.
-/

namespace NativeGlue

/--
What the fault of a descriptor means for the text in front of its offset and
the text behind it, where `accepts` says which texts are descriptors.
-/
def DescriptorFault.Fits (accepts : String → Prop) (front back : List Char) :
    DescriptorFault → Prop
  | unexpectedEnd => back = []
  | unexpectedChar c => back.head? = some c
  | voidNotAllowed => back.head? = some 'V'
  | tooManyDimensions count =>
      255 < count ∧ ∃ rest, back = List.replicate count '[' ++ rest ∧
        rest.head? ≠ some '['
  | invalidClassName name =>
      front.getLast? = some 'L' ∧ name.toList ++ [';'] <+: back ∧
        (ClassName.mk name).isValid = false
  | trailingInput => accepts (String.ofList front)

/-- The error is about the text, and its offset is where the fault stands. -/
structure DescriptorError.Locates (e : DescriptorError)
    (accepts : String → Prop) (s : String) : Prop where
  descriptor : e.descriptor = s
  inside : e.offset ≤ s.utf8ByteSize
  boundary : String.Pos.Raw.IsValid s ⟨e.offset⟩
  fits : ∀ front back : String, s = front ++ back →
    front.utf8ByteSize = e.offset →
      e.fault.Fits accepts front.toList back.toList

namespace Text

/-- The number of bytes of a text. -/
theorem byteLength_eq_utf8ByteSize (cs : List Char) :
    byteLength cs = (String.ofList cs).utf8ByteSize := by
  induction cs with
  | nil => simp
  | cons c cs ih =>
      rw [byteLength_cons, ih, String.ofList_cons,
        String.utf8ByteSize_append, String.utf8ByteSize_singleton]

theorem eq_nil_of_byteLength_eq_zero {cs : List Char}
    (empty : byteLength cs = 0) : cs = [] := by
  cases cs with
  | nil => rfl
  | cons c cs =>
      have positive := c.utf8Size_pos
      rw [byteLength_cons] at empty
      omega

/-- A text is divided in one way at an offset. -/
theorem append_inj_of_byteLength {a b c d : List Char}
    (same : a ++ b = c ++ d) (size : byteLength a = byteLength c) :
    a = c ∧ b = d := by
  rcases List.append_eq_append_iff.mp same with
    ⟨more, rfl, rfl⟩ | ⟨more, rfl, rfl⟩
  · rw [byteLength_append] at size
    have empty : more = [] := eq_nil_of_byteLength_eq_zero (by omega)
    rw [empty]
    simp
  · rw [byteLength_append] at size
    have empty : more = [] := eq_nil_of_byteLength_eq_zero (by omega)
    rw [empty]
    simp

end Text

namespace Descriptor

open TypeDescriptor

variable {text front : List Char} {stop : Stop}

/-- A reader stopped in a text, behind some of it, where its fault stands. -/
def Stop.IsIn (stop : Stop) (text : List Char) : Prop :=
  ∃ front, text = front ++ stop.rest ∧
    stop.fault.Fits (fun _ => False) front stop.rest

/-- More text in front does not move the place of a fault. -/
theorem Stop.IsIn.behind (found : stop.IsIn text) (front : List Char) :
    stop.IsIn (front ++ text) := by
  obtain ⟨used, rfl, fits⟩ := found
  refine ⟨front ++ used, (List.append_assoc _ _ _).symm, ?_⟩
  cases fault : stop.fault with
  | invalidClassName name =>
      rw [fault] at fits
      obtain ⟨letter, rest⟩ := fits
      refine ⟨?_, rest⟩
      rw [List.getLast?_append, letter]
      rfl
  | trailingInput =>
      rw [fault] at fits
      exact fits.elim
  | _ =>
      rw [fault] at fits
      exact fits

theorem isIn_readClass (failed : readClass text = .error stop) :
    stop.IsIn ('L' :: text) := by
  rw [readClass] at failed
  split at failed
  · cases failed
    exact ⟨'L' :: text, (List.append_nil _).symm, rfl⟩
  · rename_i name rest divided
    obtain ⟨-, rfl⟩ := Text.splitFirst?_eq_some_iff.mp divided
    simp only at failed
    split at failed
    · cases failed
    · rename_i invalid
      cases failed
      refine ⟨['L'], rfl, rfl, ⟨rest, ?_⟩, Bool.not_eq_true _ ▸ invalid⟩
      rw [String.toList_ofList, List.append_assoc, List.singleton_append]

theorem isIn_readElement {allowVoid : Bool}
    (failed : readElement allowVoid text = .error stop) : stop.IsIn text := by
  cases text with
  | nil =>
      cases failed
      exact ⟨[], rfl, rfl⟩
  | cons c text =>
      rw [readElement] at failed
      split at failed
      · rename_i letter
        rw [letter]
        exact isIn_readClass failed
      · split at failed
        · cases failed
          exact ⟨[], rfl, rfl⟩
        · rename_i kind code
          split at failed
          · rename_i void
            rw [Bool.and_eq_true, Primitive.isVoid, decide_eq_true_iff] at void
            rw [void.1] at code
            cases failed
            refine ⟨[], rfl, ?_⟩
            rw [← Primitive.ofCode?_eq_some code]
            rfl
          · cases failed

theorem head?_dropWhile_ne (text : List Char) :
    (text.dropWhile (· = '[')).head? ≠ some '[' := by
  intro first
  have stays := List.head?_dropWhile_not (· = '[') text
  rw [first] at stays
  cases stays

theorem isIn_readType {allowVoid : Bool}
    (failed : readType allowVoid text = .error stop) : stop.IsIn text := by
  have brackets : text.takeWhile (· = '[') =
      List.replicate (text.takeWhile (· = '[')).length '[' := by
    rw [List.eq_replicate_iff]
    refine ⟨rfl, fun c member => ?_⟩
    simpa using List.mem_takeWhile_imp member
  rw [readType] at failed
  split at failed
  · rename_i many
    cases failed
    refine ⟨[], rfl, many, text.dropWhile (· = '['), ?_,
      head?_dropWhile_ne text⟩
    rw [← brackets, List.takeWhile_append_dropWhile]
  · split at failed
    · rename_i body
      cases failed
      have behind := (isIn_readElement body).behind (text.takeWhile (· = '['))
      rwa [List.takeWhile_append_dropWhile] at behind
    · split at failed
      · cases failed
      · cases failed

theorem readParams_cons {c : Char} {cs : List Char} (other : c ≠ ')') :
    readParams (c :: cs) =
      match readType false (c :: cs) with
      | .error stop => .error stop
      | .ok (t, rest) =>
          match readParams rest with
          | .error stop => .error stop
          | .ok (ts, rest) => .ok (t :: ts, rest) := by
  rw [readParams, if_neg other]
  split
  · rename_i first
    rewrite [first]
    rfl
  · rename_i first
    dsimp only
    rewrite [first]
    rfl

/-- The induction is on what is left behind the parameters that are read. -/
theorem isIn_readParams (failed : readParams text = .error stop) :
    stop.IsIn text := by
  induction text using readParams.induct with
  | case1 =>
      rw [readParams] at failed
      cases failed
      exact ⟨[], rfl, rfl⟩
  | case2 =>
      rw [readParams, if_pos rfl] at failed
      cases failed
  | case3 c cs other stop' first =>
      rw [readParams_cons other, first] at failed
      cases failed
      exact isIn_readType first
  | case4 c cs other t rest first _ stop' others ih =>
      rw [readParams_cons other, first] at failed
      simp only [others] at failed
      cases failed
      obtain ⟨-, -, eq⟩ := readType_eq_ok_iff.mp first
      rw [eq]
      exact (ih others).behind t.chars
  | case5 c cs other t rest first _ us rest' others =>
      rw [readParams_cons other, first] at failed
      simp only [others] at failed
      cases failed

/-- The character that has the number of the first byte of a character. -/
def firstByte (c : Char) : Char :=
  Char.ofNat ((String.utf8EncodeChar c).headD 0).toNat

/-- A character of ASCII is its first byte. -/
theorem firstByte_eq {c : Char} (ascii : c.toNat < 0x80) :
    firstByte c = c := by
  have size : c.utf8Size = 1 :=
    Char.utf8Size_eq_one_iff.mpr (Nat.lt_succ_iff.mp ascii)
  have byte : c.val.toUInt8.toNat = c.toNat := by
    rw [UInt32.toNat_toUInt8]
    exact Nat.mod_eq_of_lt (Nat.lt_trans ascii (by decide))
  rw [firstByte, String.utf8EncodeChar_eq_singleton size, List.headD_cons,
    byte, Char.ofNat_toNat]

theorem isIn_readMethod (failed : readMethod text = .error stop)
    (whole : ∀ c ∈ text.head?, firstByte c = c) : stop.IsIn text := by
  cases text with
  | nil =>
      cases failed
      exact ⟨[], rfl, rfl⟩
  | cons c text =>
      rw [readMethod] at failed
      split at failed
      · rename_i opening
        split at failed
        · rename_i params
          cases failed
          exact (isIn_readParams params).behind [c]
        · rename_i ts after params
          split at failed
          · rename_i ret
            cases failed
            obtain ⟨-, eq⟩ := readParams_eq_ok_iff.mp params
            have behind := (isIn_readType ret).behind
              (c :: (ts.flatMap chars ++ [')']))
            rw [List.cons_append, List.append_assoc,
              List.singleton_append] at behind
            rwa [eq]
          · cases failed
      · cases failed
        exact ⟨[], rfl, congrArg some (whole c rfl).symm⟩

/-- A reader that takes the same from its own part of a text alone. -/
def TakesPart {α : Type} (read : List Char → Read α) : Prop :=
  ∀ text value rest, read text = .ok (value, rest) →
    ∃ front, text = front ++ rest ∧ read front = .ok (value, [])

theorem takesPart_readType {allowVoid : Bool} :
    TakesPart (readType allowVoid) := by
  intro text t rest found
  obtain ⟨canonical, allowed, eq⟩ := readType_eq_ok_iff.mp found
  exact ⟨t.chars, eq, readType_eq_ok_iff.mpr
    ⟨canonical, allowed, (List.append_nil _).symm⟩⟩

theorem takesPart_readMethod : TakesPart readMethod := by
  intro text d rest found
  obtain ⟨canonical, eq⟩ := readMethod_eq_ok_iff.mp found
  exact ⟨d.chars, eq, readMethod_eq_ok_iff.mpr
    ⟨canonical, (List.append_nil _).symm⟩⟩

section Parsing

variable {α : Type} {read : List Char → Read α} {s : String}
  {e : DescriptorError}

/-- An error stands behind some text, and its fault fits there. -/
theorem exists_of_parse_eq_error (takes : TakesPart read)
    (stops : ∀ stop, read s.toList = .error stop → stop.IsIn s.toList)
    (failed : parse read s = .error e) :
    e.descriptor = s ∧ ∃ front back, s.toList = front ++ back ∧
      e.offset = Text.byteLength front ∧
      e.fault.Fits (fun t => ∃ value, parse read t = .ok value) front back := by
  rw [parse] at failed
  simp only at failed
  cases found : read s.toList with
  | error stop =>
      obtain ⟨front, eq, fits⟩ := stops stop found
      rw [found] at failed
      cases failed
      refine ⟨rfl, front, stop.rest, eq, ?_, ?_⟩
      · rw [eq, Text.byteLength_append, Nat.add_sub_cancel_right]
      · cases fault : stop.fault with
        | trailingInput =>
            rw [fault] at fits
            exact fits.elim
        | _ =>
            rw [fault] at fits
            exact fits
  | ok result =>
      obtain ⟨value, rest⟩ := result
      obtain ⟨front, eq, alone⟩ := takes _ _ _ found
      rw [found] at failed
      cases rest with
      | nil => cases failed
      | cons c rest =>
          cases failed
          refine ⟨rfl, front, c :: rest, eq, ?_, value, ?_⟩
          · rw [eq, Text.byteLength_append, Nat.add_sub_cancel_right]
          · rw [parse_eq_ok_iff, String.toList_ofList]
            exact alone

theorem locates_of_parse_eq_error (takes : TakesPart read)
    (stops : ∀ stop, read s.toList = .error stop → stop.IsIn s.toList)
    (failed : parse read s = .error e) :
    e.Locates (fun t => ∃ value, parse read t = .ok value) s := by
  obtain ⟨descriptor, front, back, eq, offset, fits⟩ :=
    exists_of_parse_eq_error takes stops failed
  have divided : s = String.ofList front ++ String.ofList back := by
    rw [← String.ofList_append, ← eq, String.ofList_toList]
  have size : e.offset = (String.ofList front).utf8ByteSize := by
    rw [offset, Text.byteLength_eq_utf8ByteSize]
  refine ⟨descriptor, ?_, ?_, fun a b same length => ?_⟩
  · rw [size, divided, String.utf8ByteSize_append]
    exact Nat.le_add_right _ _
  · rw [size]
    exact String.Pos.Raw.isValid_iff_exists_append.mpr ⟨_, _, divided, rfl⟩
  · have parts : a.toList ++ b.toList = front ++ back := by
      rw [← String.toList_append, ← same, eq]
    have bytes : Text.byteLength a.toList = Text.byteLength front := by
      rw [← offset, ← length, Text.byteLength_eq_utf8ByteSize,
        String.ofList_toList]
    obtain ⟨rfl, rfl⟩ := Text.append_inj_of_byteLength parts bytes
    exact fits

end Parsing

/-- A method that starts with a character unlike its first byte. -/
theorem parse_eq_error_of_firstByte {s : String} {c : Char}
    (first : c ∈ s.toList.head?) (other : firstByte c ≠ c) :
    MethodDescriptor.parse s =
      .error ⟨s, 0, .unexpectedChar (firstByte c)⟩ := by
  obtain ⟨cs, chars⟩ := List.head?_eq_some_iff.mp first
  have closed : c ≠ '(' := by
    rintro rfl
    exact other (firstByte_eq (by decide))
  rw [MethodDescriptor.parse, parse, chars]
  simp only [readMethod, if_neg closed, Nat.sub_self]
  rfl

/--
The error of a text that is refused as a type has an offset between two
characters of the text, at which its fault is to be seen. So has that of a
text that is refused as a method, just if the text starts with no character
that is unlike its first byte; one that does is refused for this byte.
-/
theorem parse_faults_located (s : String) (e : DescriptorError) :
    (TypeDescriptor.parse s = .error e →
      e.Locates (fun t => ∃ value, TypeDescriptor.parse t = .ok value) s) ∧
    (MethodDescriptor.parse s = .error e →
      (e.Locates (fun t => ∃ value, MethodDescriptor.parse t = .ok value) s ↔
        ∀ c ∈ s.toList.head?, firstByte c = c) ∧
      ∀ c ∈ s.toList.head?, firstByte c ≠ c →
        e = ⟨s, 0, .unexpectedChar (firstByte c)⟩) := by
  refine ⟨locates_of_parse_eq_error takesPart_readType
    (fun stop => isIn_readType), fun failed => ?_⟩
  have reported (c : Char) (first : c ∈ s.toList.head?)
      (other : firstByte c ≠ c) :
      e = ⟨s, 0, .unexpectedChar (firstByte c)⟩ := by
    rw [parse_eq_error_of_firstByte first other] at failed
    exact (Except.error.inj failed).symm
  refine ⟨⟨fun located c first => ?_, fun whole => ?_⟩, reported⟩
  · by_contra other
    have fits := located.fits "" s String.empty_append.symm
    rw [reported c first other] at fits
    have starts : s.toList.head? = some (firstByte c) := fits rfl
    exact other (Option.some.inj (starts.symm.trans first))
  · exact locates_of_parse_eq_error takesPart_readMethod
      (fun stop stopped => isIn_readMethod stopped whole) failed

/-- A letter of two bytes behind a type, and one in place of a parameter. -/
theorem parse_faults_located_accented :
    (TypeDescriptor.parse "Lé;é" = .error ⟨"Lé;é", 4, .trailingInput⟩ ∧
      DescriptorError.Locates ⟨"Lé;é", 4, .trailingInput⟩
        (fun t => ∃ value, TypeDescriptor.parse t = .ok value) "Lé;é") ∧
    (MethodDescriptor.parse "(é)V" =
        .error ⟨"(é)V", 1, .unexpectedChar 'é'⟩ ∧
      DescriptorError.Locates ⟨"(é)V", 1, .unexpectedChar 'é'⟩
        (fun t => ∃ value, MethodDescriptor.parse t = .ok value) "(é)V") := by
  have trailing : TypeDescriptor.parse "Lé;é" =
      .error ⟨"Lé;é", 4, .trailingInput⟩ := by decide
  have params : readParams ['é', ')', 'V'] =
      .error ⟨['é', ')', 'V'], .unexpectedChar 'é'⟩ := by
    rw [readParams_cons (by decide)]
    rfl
  have letter : MethodDescriptor.parse "(é)V" =
      .error ⟨"(é)V", 1, .unexpectedChar 'é'⟩ := by
    have chars : "(é)V".toList = ['(', 'é', ')', 'V'] := by decide
    rw [MethodDescriptor.parse, parse, chars]
    simp only [readMethod, if_true, params]
    rfl
  have whole : ∀ c ∈ "(é)V".toList.head?, firstByte c = c := by
    have first : "(é)V".toList.head? = some '(' := by decide
    rw [first]
    rintro c ⟨⟩
    exact firstByte_eq (by decide)
  exact ⟨⟨trailing, (parse_faults_located _ _).1 trailing⟩, letter,
    ((parse_faults_located _ _).2 letter).1.mpr whole⟩

/-- The first byte of a letter is reported as another letter. -/
theorem not_forall_parse_faults_located :
    ¬ ∀ (s : String) (e : DescriptorError),
      MethodDescriptor.parse s = .error e →
        e.Locates (fun t => ∃ value, MethodDescriptor.parse t = .ok value)
          s := by
  intro all
  have failed : MethodDescriptor.parse "é" =
      .error ⟨"é", 0, .unexpectedChar 'Ã'⟩ := by decide
  have first := (all _ _ failed).fits "" "é" rfl rfl
  revert first
  simp only [DescriptorFault.Fits]
  decide

end Descriptor
end NativeGlue
