import NativeGlue.Binding
import NativeGlue.Scan.Metadata

/-!
# Selecting targets

A class becomes a target if it carries the marker and has a method to bind:
one that is native, written by hand and not excluded by name.
-/

namespace NativeGlue

/-- A target without its native code, and the resources that have the code. -/
structure Selection where
  target : Target
  codePaths : List String
deriving DecidableEq, Repr, Inhabited

namespace Selection

/-- Whether a class carries the marker; an interface never does. -/
def isMarked (config : Config) (index : ClassIndex) (c : ClassFile) : Bool :=
  !c.access.isInterface
    && match config.marker with
      | .annotated name => (c.annotationOf? (ClassName.ofBinary name)).isSome
      | .implementing name => index.implements c (ClassName.ofBinary name)
      | .nativeMethods => !c.nativeMethods.isEmpty

/-- Whether a method of a marked class is bound. -/
def isCandidate (config : Config) (m : MethodInfo) : Bool :=
  m.access.isNative && !m.access.isGenerated
    && !config.excludeMethods.contains m.name

/-- A string that an annotation gives to an element, unless it is empty. -/
def elementString? (a : Annotation) (element : String) : Option String :=
  ((a.element? element).bind ElementValue.string?).filter fun s => s ≠ ""

/-- The flags that a method and its annotations say. -/
def flagsOf (names : AnnotationNames) (m : MethodInfo) : MethodFlags where
  isStatic := m.access.isStatic
  takesOwnership :=
    (m.annotationOf? (ClassName.ofBinary names.takesOwnership)).isSome
  ignoresNull :=
    (m.annotationOf? (ClassName.ofBinary names.ignoreNullcheck)).isSome

/-- The parameters that are annotated not to be checked for null. -/
def uncheckedOf (names : AnnotationNames) (m : MethodInfo) (count : Nat) :
    List Nat :=
  (List.range count).filter fun i =>
    (m.parameterAnnotationOf? i
      (ClassName.ofBinary names.ignoreNullcheck)).isSome

/-- A text of an annotation of a method. -/
def textOf? (m : MethodInfo) (type element : String) : Option String :=
  (m.annotationOf? (ClassName.ofBinary type)).bind fun a =>
    elementString? a element

/-- The method to bind, with what its annotations say. -/
def methodOf (names : AnnotationNames) (m : MethodInfo)
    (descriptor : MethodDescriptor) : Method :=
  let plain := Method.ofName m.name descriptor (flagsOf names m)
  let unchecked :=
    (uncheckedOf names m descriptor.params.length).foldl
      Method.withUncheckedParam plain
  let named :=
    (textOf? m names.nativeName "nativeName").elim unchecked
      unchecked.withNativeName
  (textOf? m names.methodNamespace "value").elim named named.withSpace

/-- The methods to bind; the first descriptor that is malformed is the fault. -/
def methodsOf (names : AnnotationNames) (owner : ClassName) :
    List MethodInfo → Except ScanError (List Method)
  | [] => .ok []
  | m :: rest =>
      match MethodDescriptor.parse m.descriptor with
      | .error cause => .error (.descriptor owner m.name cause)
      | .ok descriptor =>
          match methodsOf names owner rest with
          | .error e => .error e
          | .ok methods => .ok (methodOf names m descriptor :: methods)

/-- The selection of a marked class; none if it has no method to bind. -/
def ofClass? (config : Config) (index : ClassIndex) (c : ClassFile) :
    Except ScanError (Option Selection) :=
  let names := config.annotations
  match methodsOf names c.name (c.methods.filter (isCandidate config)) with
  | .error e => .error e
  | .ok [] => .ok none
  | .ok methods =>
      match Metadata.ofClass names index c with
      | .error e => .error e
      | .ok metadata =>
          .ok (some
            { target :=
                { name := c.name
                  methods
                  space :=
                    (Metadata.bridge? names c).bind fun a =>
                      elementString? a "namespace"
                  includes := metadata.includes }
              codePaths := metadata.codePaths })

end Selection
end NativeGlue
