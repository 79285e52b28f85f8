import NativeGlue.Config.Basic
import NativeGlue.Scan.Index

/-!
# Metadata of classes

A bridge class can name headers and files of native code that belong to it,
and other bridge classes whose headers and files it takes over. The metadata
stand in an annotation on the class or inside its bridge annotation.
-/

namespace NativeGlue

/-- Headers, and resources with native code. -/
structure Metadata where
  includes : List String
  codePaths : List String
deriving DecidableEq, Repr, Inhabited

namespace Metadata

/-- The texts of a list that are not empty, each at its first place. -/
def distinct (values : List String) : List String :=
  values.foldl
    (fun kept v => if v = "" ∨ kept.contains v then kept else kept ++ [v]) []

/-- The strings of an element; none if the annotation lacks it. -/
def stringsOf (a : Annotation) (element : String) : List String :=
  match a.element? element with
  | some v => v.strings
  | none => []

/-- The classes of an element; none if the annotation lacks it. -/
def classesOf (a : Annotation) (element : String) : List ClassName :=
  match a.element? element with
  | some v => v.classes
  | none => []

/-- The bridge annotation of a class. -/
def bridge? (names : AnnotationNames) (c : ClassFile) : Option Annotation :=
  c.annotationOf? (ClassName.ofBinary names.bridgeClass)

/-- The metadata annotations of a class; a nested one comes first. -/
def annotations (names : AnnotationNames) (c : ClassFile) : List Annotation :=
  let nested :=
    ((bridge? names c).bind fun a => a.element? "metadata").bind
      ElementValue.nested?
  nested.toList ++ (c.annotationOf? (ClassName.ofBinary names.metadata)).toList

/-- The classes whose metadata a class takes over. -/
def parents (names : AnnotationNames) (c : ClassFile) : List ClassName :=
  (annotations names c).flatMap fun a => classesOf a "inheritFrom"

/-- The links that a class takes metadata over, in the order of a walk. -/
def links (names : AnnotationNames) (index : ClassIndex) (c : ClassFile) :
    List Link :=
  index.walk (parents names) [c.name]
    ((parents names c).map (Link.mk c.name))

/-- The bridge class of a given name. -/
def bridgeClass? (names : AnnotationNames) (index : ClassIndex)
    (name : ClassName) : Option ClassFile :=
  (index.get? name).filter fun c => (bridge? names c).isSome

/-- The bridge classes that links lead to; each link must lead to one. -/
def resolve (names : AnnotationNames) (index : ClassIndex) :
    List Link → Except ScanError (List ClassFile)
  | [] => .ok []
  | link :: rest =>
      match bridgeClass? names index link.target with
      | none => .error (.inheritFrom link.source link.target)
      | some c =>
          match resolve names index rest with
          | .error e => .error e
          | .ok cs => .ok (c :: cs)

/-- The native code that the bridge annotation of a class names. -/
def ownCodePaths (names : AnnotationNames) (c : ClassFile) : List String :=
  match bridge? names c with
  | some a => stringsOf a "customJniCodePaths"
  | none => []

/-- The strings of an element of the metadata annotations of classes. -/
def collect (names : AnnotationNames) (classes : List ClassFile)
    (element : String) : List String :=
  classes.flatMap fun c =>
    (annotations names c).flatMap fun a => stringsOf a element

/-- The metadata of a class with all that it takes over. -/
def ofClass (names : AnnotationNames) (index : ClassIndex) (c : ClassFile) :
    Except ScanError Metadata :=
  match resolve names index (links names index c) with
  | .error e => .error e
  | .ok inherited =>
      let classes := c :: inherited
      .ok
        { includes := distinct (collect names classes "includes")
          codePaths :=
            distinct
              (ownCodePaths names c
                ++ collect names classes "customJNICodePaths") }

end Metadata
end NativeGlue
