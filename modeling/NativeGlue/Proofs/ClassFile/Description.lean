import Mathlib.Algebra.GroupWithZero.Nat
import NativeGlue.Proofs.ClassFile.Interning

/-!
# What a class to write describes

A class to write stands for a class file: this module says which, and when the
format can hold it. Annotations are described with the visible ones in front,
those of parameters up to the last parameter that has one. The limits are those
of the numbers that a class file is made of: a text and a list have their
lengths in two bytes, an attribute in four, a list of parameters in one.
-/

namespace NativeGlue

namespace ElementSpec

mutual

/-- The value; annotations inside are as visible as the outermost one. -/
def value (visible : Bool) : ElementSpec → ElementValue
  | string text => .string text
  | strings texts => .array (texts.map .string)
  | boolean b => .boolean b
  | classes names =>
      .array (names.map fun n => .classLiteral ("L" ++ n ++ ";"))
  | nested type _ elements => .nested type (values visible elements) visible

/-- The values, with their names. -/
def values (visible : Bool) :
    List (String × ElementSpec) → List (String × ElementValue)
  | [] => []
  | (name, v) :: rest => (name, v.value visible) :: values visible rest

end

mutual

/-- The texts of a value; a class literal is written as a descriptor. -/
def texts : ElementSpec → List String
  | string text => [text]
  | strings texts => texts
  | boolean _ => []
  | classes names => names.map fun n => "L" ++ n ++ ";"
  | nested type _ elements => type :: allTexts elements

/-- The texts of elements, their names among them. -/
def allTexts : List (String × ElementSpec) → List String
  | [] => []
  | (name, v) :: rest => name :: (v.texts ++ allTexts rest)

end

mutual

/-- The lengths of the lists in a value. -/
def counts : ElementSpec → List Nat
  | string _ | boolean _ => []
  | strings texts => [texts.length]
  | classes names => [names.length]
  | nested _ _ elements => elements.length :: allCounts elements

/-- The lengths of the lists in elements. -/
def allCounts : List (String × ElementSpec) → List Nat
  | [] => []
  | (_, v) :: rest => v.counts ++ allCounts rest

end

mutual

/-- How many values stand inside one another, the outermost included. -/
def levels : ElementSpec → Nat
  | string _ | boolean _ => 1
  | strings texts => if texts.isEmpty then 1 else 2
  | classes names => if names.isEmpty then 1 else 2
  | nested _ _ elements => 1 + maxLevels elements

/-- The most levels that an element has. -/
def maxLevels : List (String × ElementSpec) → Nat
  | [] => 0
  | (_, v) :: rest => max v.levels (maxLevels rest)

end

mutual

/-- The number of bytes that a value is written in. -/
def size : ElementSpec → Nat
  | string _ | boolean _ => 3
  | strings texts => 3 + 3 * texts.length
  | classes names => 3 + 3 * names.length
  | nested _ _ elements => 5 + totalSize elements

/-- The number of bytes that elements are written in. -/
def totalSize : List (String × ElementSpec) → Nat
  | [] => 0
  | (_, v) :: rest => 2 + v.size + totalSize rest

end

end ElementSpec

namespace AnnotationSpec

open ElementSpec

/-- The annotation that is described. -/
def described (a : AnnotationSpec) : Annotation :=
  ⟨a.type, values a.visible a.elements, a.visible⟩

/-- The number of bytes that an annotation is written in. -/
def size (a : AnnotationSpec) : Nat := 4 + totalSize a.elements

/-- An annotation that the format can hold, and that is read. -/
structure WithinLimits (a : AnnotationSpec) : Prop where
  texts : ∀ text ∈ a.type :: allTexts a.elements, TextFits text
  counts : ∀ n ∈ a.elements.length :: allCounts a.elements, n ≤ 65535
  levels : maxLevels a.elements ≤ 32

instance (a : AnnotationSpec) : Decidable a.WithinLimits :=
  decidable_of_iff
    ((∀ text ∈ a.type :: allTexts a.elements, TextFits text)
      ∧ (∀ n ∈ a.elements.length :: allCounts a.elements, n ≤ 65535)
      ∧ maxLevels a.elements ≤ 32)
    ⟨fun ⟨t, c, l⟩ => ⟨t, c, l⟩, fun ⟨t, c, l⟩ => ⟨t, c, l⟩⟩

end AnnotationSpec

section Lists

variable (visible : Bool) (annotations : List AnnotationSpec)
  (parameters : List (Nat × AnnotationSpec))

/-- The annotations of one visibility. -/
def ofVisibility : List AnnotationSpec :=
  annotations.filter fun a => a.visible = visible

/-- The annotations that are read: the visible ones, then the others. -/
def describedAnnotations : List Annotation :=
  (ofVisibility true annotations ++ ofVisibility false annotations).map
    AnnotationSpec.described

/-- The annotations of parameters of one visibility. -/
def parametersOfVisibility : List (Nat × AnnotationSpec) :=
  parameters.filter fun (_, a) => a.visible = visible

/-- The number of parameters up to the last one with an annotation. -/
def parameterCount : Nat :=
  ((parameters.map fun (i, _) => i + 1).max?).getD 0

/-- A list for each of these parameters, with what is read for it. -/
def describedParameters : List (List Annotation) :=
  (List.range (parameterCount parameters)).map fun i =>
    describedAnnotations (annotationsAt parameters i)

/-- The annotations of one visibility, parameter by parameter. -/
def parameterGroups : List (List AnnotationSpec) :=
  let chosen := parametersOfVisibility visible parameters
  (List.range (parameterCount chosen)).map (annotationsAt chosen)

/-- The number of bytes that a list of annotations is written in. -/
def listSize : Nat :=
  2 + (annotations.map AnnotationSpec.size).sum

/-- The annotations of a class or method, as the format can hold them. -/
structure AnnotationsFit : Prop where
  each : ∀ a ∈ annotations, a.WithinLimits
  counts : ∀ visible, (ofVisibility visible annotations).length ≤ 65535
  sizes : ∀ visible, listSize (ofVisibility visible annotations) < 2 ^ 32

/-- The annotations of parameters, as the format can hold them. -/
structure ParametersFit : Prop where
  each : ∀ p ∈ parameters, p.1 < 255 ∧ p.2.WithinLimits
  counts : ∀ visible, ∀ group ∈ parameterGroups visible parameters,
    group.length ≤ 65535
  sizes : ∀ visible,
    1 + ((parameterGroups visible parameters).map listSize).sum < 2 ^ 32

instance : Decidable (AnnotationsFit annotations) :=
  decidable_of_iff
    ((∀ a ∈ annotations, a.WithinLimits)
      ∧ (∀ visible, (ofVisibility visible annotations).length ≤ 65535)
      ∧ ∀ visible, listSize (ofVisibility visible annotations) < 2 ^ 32)
    ⟨fun ⟨e, c, s⟩ => ⟨e, c, s⟩, fun ⟨e, c, s⟩ => ⟨e, c, s⟩⟩

instance : Decidable (ParametersFit parameters) :=
  decidable_of_iff
    ((∀ p ∈ parameters, p.1 < 255 ∧ p.2.WithinLimits)
      ∧ (∀ visible, ∀ group ∈ parameterGroups visible parameters,
        group.length ≤ 65535)
      ∧ ∀ visible,
        1 + ((parameterGroups visible parameters).map listSize).sum < 2 ^ 32)
    ⟨fun ⟨e, c, s⟩ => ⟨e, c, s⟩, fun ⟨e, c, s⟩ => ⟨e, c, s⟩⟩

end Lists

namespace MethodSpec

/-- The method that is described. -/
def described (m : MethodSpec) : MethodInfo where
  access := m.access
  name := m.name
  descriptor := m.descriptor
  annotations := describedAnnotations m.annotations
  parameterAnnotations := describedParameters m.parameterAnnotations

/-- A method that the format can hold. -/
structure WithinLimits (m : MethodSpec) : Prop where
  name : TextFits m.name
  descriptor : TextFits m.descriptor
  annotations : AnnotationsFit m.annotations
  parameters : ParametersFit m.parameterAnnotations

instance (m : MethodSpec) : Decidable m.WithinLimits :=
  decidable_of_iff
    (TextFits m.name ∧ TextFits m.descriptor ∧ AnnotationsFit m.annotations
      ∧ ParametersFit m.parameterAnnotations)
    ⟨fun ⟨n, d, a, p⟩ => ⟨n, d, a, p⟩, fun ⟨n, d, a, p⟩ => ⟨n, d, a, p⟩⟩

end MethodSpec

namespace ClassSpec

/-- The class file that is described. -/
def described (c : ClassSpec) : ClassFile where
  minorVersion := c.minorVersion
  majorVersion := c.majorVersion
  access := c.access
  name := ⟨c.name⟩
  superclass := c.superclass.map ClassName.mk
  interfaces := c.interfaces.map ClassName.mk
  methods := c.methods.map MethodSpec.described
  annotations := describedAnnotations c.annotations
  sourceFile := c.sourceFile

/-- The texts that stand in the class itself. -/
def texts (c : ClassSpec) : List String :=
  c.name :: (c.superclass.toList ++ c.interfaces ++ c.sourceFile.toList)

/-- The pool that is left when the class has been written. -/
def pool (c : ClassSpec) : PoolBuilder :=
  ((writeBody c).run .empty).2

/-- A class that the format can hold, in a version that is read. -/
structure WithinLimits (c : ClassSpec) : Prop where
  version : 45 ≤ c.majorVersion.toNat ∧ c.majorVersion.toNat ≤ 69
  constants : c.pool.constants.length < 65535
  texts : ∀ text ∈ c.texts, TextFits text
  interfaces : c.interfaces.length ≤ 65535
  methods : c.methods.length ≤ 65535
  eachMethod : ∀ m ∈ c.methods, m.WithinLimits
  annotations : AnnotationsFit c.annotations

instance (c : ClassSpec) : Decidable c.WithinLimits :=
  decidable_of_iff
    ((45 ≤ c.majorVersion.toNat ∧ c.majorVersion.toNat ≤ 69)
      ∧ c.pool.constants.length < 65535 ∧ (∀ text ∈ c.texts, TextFits text)
      ∧ c.interfaces.length ≤ 65535 ∧ c.methods.length ≤ 65535
      ∧ (∀ m ∈ c.methods, m.WithinLimits) ∧ AnnotationsFit c.annotations)
    ⟨fun ⟨v, k, t, i, n, m, a⟩ => ⟨v, k, t, i, n, m, a⟩,
      fun ⟨v, k, t, i, n, m, a⟩ => ⟨v, k, t, i, n, m, a⟩⟩

end ClassSpec
end NativeGlue
