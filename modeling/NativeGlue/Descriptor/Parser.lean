import NativeGlue.Descriptor.Basic

/-!
# Reading descriptors

A reader takes the text that is left and gives a type with the text after it.
A reader that fails says what is wrong and returns the text at which it
stopped; the offset of a fault is the size of what stands before that text.
-/

namespace NativeGlue

/-- What can be wrong with a descriptor. -/
inductive DescriptorFault where
  /-- The text ends inside a type. -/
  | unexpectedEnd
  /-- A character that cannot start a type, or cannot start a descriptor. -/
  | unexpectedChar (c : Char)
  /-- A `V` that is not a result type. -/
  | voidNotAllowed
  /-- More dimensions than an array may have. -/
  | tooManyDimensions (count : Nat)
  /-- The text between `L` and `;` is no class name. -/
  | invalidClassName (name : String)
  /-- Text follows a complete descriptor. -/
  | trailingInput
deriving DecidableEq, Repr, Inhabited

namespace DescriptorFault

/-- The wording of a fault. -/
def message : DescriptorFault → String
  | unexpectedEnd => "unexpected end of descriptor"
  | unexpectedChar c => "unexpected character '" ++ c.toString ++ "'"
  | voidNotAllowed => "'V' is only valid as a return type"
  | tooManyDimensions count =>
      toString count ++ " array dimensions exceed the limit of 255"
  | invalidClassName name => "invalid class name '" ++ name ++ "'"
  | trailingInput => "trailing input after descriptor"

end DescriptorFault

/-- A text that is no descriptor: the fault and its byte offset. -/
structure DescriptorError where
  descriptor : String
  offset : Nat
  fault : DescriptorFault
deriving DecidableEq, Repr, Inhabited

namespace DescriptorError

/-- The wording of the error. -/
def message (e : DescriptorError) : String :=
  "invalid descriptor '" ++ e.descriptor ++ "' at offset "
    ++ toString e.offset ++ ": " ++ e.fault.message

end DescriptorError

namespace Descriptor

/-- Where a reader stopped: the text left there, and the fault. -/
structure Stop where
  rest : List Char
  fault : DescriptorFault

/-- What a reader gives: a value and the text after it, or where it stopped. -/
abbrev Read (α : Type) := Except Stop (α × List Char)

/-- Reads a class name that ends with a semicolon; the `L` has been read. -/
def readClass (text : List Char) : Read TypeDescriptor :=
  match Text.splitFirst? ';' text with
  | none => .error ⟨[], .unexpectedEnd⟩
  | some (name, rest) =>
      let name := String.ofList name
      if (ClassName.mk name).isValid then
        .ok (TypeDescriptor.ofClass ⟨name⟩, rest)
      else
        .error ⟨text, .invalidClassName name⟩

/-- Reads a type that is no array, with `void` among the types if allowed. -/
def readElement (allowVoid : Bool) : List Char → Read TypeDescriptor
  | [] => .error ⟨[], .unexpectedEnd⟩
  | c :: rest =>
      if c = 'L' then
        readClass rest
      else
        match Primitive.ofCode? c with
        | none => .error ⟨c :: rest, .unexpectedChar c⟩
        | some kind =>
            if kind.isVoid && !allowVoid then
              .error ⟨c :: rest, .voidNotAllowed⟩
            else
              .ok (.primitive kind, rest)

/-- Reads a type. The elements of an array are never `void`. -/
def readType (allowVoid : Bool) (text : List Char) : Read TypeDescriptor :=
  let dimensions := (text.takeWhile (· = '[')).length
  let body := text.dropWhile (· = '[')
  if TypeDescriptor.maxDimensions < dimensions then
    .error ⟨text, .tooManyDimensions dimensions⟩
  else
    match readElement (allowVoid && dimensions = 0) body with
    | .error stop => .error stop
    | .ok (element, rest) =>
        if dimensions = 0 then
          .ok (element, rest)
        else
          .ok (element.arrayOf dimensions, rest)

/-- What follows the first separator is shorter than the text. -/
theorem length_lt_of_splitFirst? {sep : Char} {text front back : List Char}
    (h : Text.splitFirst? sep text = some (front, back)) :
    back.length < text.length := by
  induction text generalizing front with
  | nil => simp [Text.splitFirst?] at h
  | cons c cs ih =>
      unfold Text.splitFirst? at h
      split at h
      · simp_all
      · obtain ⟨⟨f, b⟩, hs, hfb⟩ := Option.map_eq_some_iff.1 h
        simp only [Prod.mk.injEq] at hfb
        have hs' : Text.splitFirst? sep cs = some (f, back) := by rw [hs, hfb.2]
        have := ih hs'
        simp only [List.length_cons]
        omega

/-- A class that is read takes at least one character. -/
theorem length_lt_of_readClass {text rest : List Char} {t : TypeDescriptor}
    (h : readClass text = .ok (t, rest)) : rest.length < text.length := by
  unfold readClass at h
  split at h
  · simp at h
  · rename_i hsplit
    have := length_lt_of_splitFirst? hsplit
    grind

/-- An element that is read takes at least one character. -/
theorem length_lt_of_readElement {allowVoid : Bool} {text rest : List Char}
    {t : TypeDescriptor} (h : readElement allowVoid text = .ok (t, rest)) :
    rest.length < text.length := by
  cases text with
  | nil => simp [readElement] at h
  | cons c cs =>
      simp only [readElement] at h
      split at h
      · have := length_lt_of_readClass h
        simp only [List.length_cons]
        omega
      · grind

/-- A type that is read takes at least one character. -/
theorem length_lt_of_readType {allowVoid : Bool} {text rest : List Char}
    {t : TypeDescriptor} (h : readType allowVoid text = .ok (t, rest)) :
    rest.length < text.length := by
  have drop : (text.dropWhile (· = '[')).length ≤ text.length :=
    (List.dropWhile_sublist _).length_le
  unfold readType at h
  simp only at h
  split at h
  · simp at h
  · split at h
    · simp at h
    · rename_i hread
      have := length_lt_of_readElement hread
      grind

/-- Reads parameter types up to and including the closing parenthesis. -/
def readParams (text : List Char) : Read (List TypeDescriptor) :=
  match text with
  | [] => .error ⟨[], .unexpectedEnd⟩
  | c :: cs =>
      if c = ')' then
        .ok ([], cs)
      else
        match h : readType false (c :: cs) with
        | .error stop => .error stop
        | .ok (t, rest) =>
            have := length_lt_of_readType h
            match readParams rest with
            | .error stop => .error stop
            | .ok (ts, rest) => .ok (t :: ts, rest)
termination_by text.length
decreasing_by exact this

/--
Reads a method descriptor. A text that does not open with a parenthesis is
refused at its first byte, which is reported as a character by itself.
-/
def readMethod (text : List Char) : Read MethodDescriptor :=
  match text with
  | [] => .error ⟨[], .unexpectedEnd⟩
  | c :: cs =>
      if c = '(' then
        match readParams cs with
        | .error stop => .error stop
        | .ok (params, rest) =>
            match readType true rest with
            | .error stop => .error stop
            | .ok (ret, rest) => .ok (⟨params, ret⟩, rest)
      else
        let first := (String.utf8EncodeChar c).headD 0
        .error ⟨text, .unexpectedChar (Char.ofNat first.toNat)⟩

/-- Runs a reader on a whole text. -/
def parse {α : Type} (read : List Char → Read α) (s : String) :
    Except DescriptorError α :=
  let text := s.toList
  let fail (stop : Stop) : Except DescriptorError α :=
    .error
      ⟨s, Text.byteLength text - Text.byteLength stop.rest, stop.fault⟩
  match read text with
  | .error stop => fail stop
  | .ok (value, []) => .ok value
  | .ok (_, rest) => fail ⟨rest, .trailingInput⟩

end Descriptor

/-- Reads a type descriptor; `V` is one, as a result type standing alone. -/
def TypeDescriptor.parse (s : String) : Except DescriptorError TypeDescriptor :=
  Descriptor.parse (Descriptor.readType true) s

/-- Reads a method descriptor. -/
def MethodDescriptor.parse (s : String) :
    Except DescriptorError MethodDescriptor :=
  Descriptor.parse Descriptor.readMethod s

end NativeGlue
