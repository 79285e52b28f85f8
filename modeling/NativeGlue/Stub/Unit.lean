import NativeGlue.Stub.Audit
import NativeGlue.Stub.Implementation
import NativeGlue.Stub.Render
import NativeGlue.Table.Basic

/-!
# Units of source

Each target becomes one unit: the prototypes that the author of the library
implements, the stubs that call them, and code written by hand.
-/

namespace NativeGlue

/-- How units are written. -/
structure EmitOptions where
  version : String
  /-- The Java exception for C++ exceptions, in internal form. -/
  exceptionClass : String := "com/jnibridge/exception/JniBridgeException"
  runtimeHeader : String := "jnibridge_runtime.hpp"
deriving DecidableEq, Repr, Inhabited

/-- A stub that was found to be unbalanced. -/
structure Unbalanced where
  symbol : String
  detail : String
deriving DecidableEq, Repr, Inhabited

/-- The wording of the fault. -/
def Unbalanced.message (u : Unbalanced) : String :=
  "internal error: stub '" ++ u.symbol ++ "' is unbalanced: " ++ u.detail

/-- The unit of a target, with the entries and the audits of its stubs. -/
structure SourceUnit where
  owner : ClassName
  fileName : String
  contents : String
  entries : List Entry
  audits : List (String × Stub.Audit)
deriving DecidableEq, Repr, Inhabited

namespace SourceUnit

open Code (Item)
open Code.Item

/-- The headers of the standard library that a unit includes. -/
def standardHeaders : List String :=
  ["cstddef", "cstdint", "exception", "string", "utility", "vector"]

/-- Prototypes by namespace, each namespace and prototype once. -/
def addPrototype (groups : List (List String × List String))
    (stub : LoweredStub) : List (List String × List String) :=
  match groups with
  | [] => [(stub.space, [stub.prototype])]
  | (space, prototypes) :: rest =>
      if space = stub.space then
        if prototypes.contains stub.prototype then
          (space, prototypes) :: rest
        else
          (space, prototypes ++ [stub.prototype]) :: rest
      else
        (space, prototypes) :: addPrototype rest stub

/-- The prototypes of stubs, grouped by namespace in the order of first use. -/
def prototypeGroups (stubs : List LoweredStub) :
    List (List String × List String) :=
  stubs.foldl addPrototype []

/-- The prototypes of one namespace. -/
def prototypeItems : List String × List String → List Item
  | (space, prototypes) =>
      let lines := prototypes.map fun p => line (p ++ ";")
      if space.isEmpty then
        lines ++ [blank]
      else
        let name := Code.joinSpace space
        [line ("namespace " ++ name ++ " \x7b"), blank] ++ lines
          ++ [blank, line ("\x7d  // namespace " ++ name), blank]

/-- The lines before the prototypes. -/
def preamble (t : Target) (version runtimeHeader : String) : List Item :=
  [line
      ("// Generated by jnibridge " ++ version ++ " from " ++ t.name.binary
        ++ ". Do not edit."),
    line "#include <jni.h>", blank]
    ++ (standardHeaders.map fun h => line ("#include <" ++ h ++ ">"))
    ++ blank
    :: ((runtimeHeader :: t.includes).map fun h =>
      line ("#include \"" ++ h ++ "\""))
    ++ [blank]

/-- Stubs with an empty line between neighbours. -/
def stubItems : List LoweredStub → List Item
  | [] => []
  | [s] => s.stub.items
  | s :: rest => s.stub.items ++ blank :: stubItems rest

/-- Code written by hand. -/
def customItems (c : CustomCode) : List Item :=
  [blank, line ("// Custom JNI code from " ++ c.path), raw c.contents]

/-- A unit as a document. -/
def document (t : Target) (version runtimeHeader : String)
    (stubs : List LoweredStub) : List Item :=
  preamble t version runtimeHeader
    ++ (prototypeGroups stubs).flatMap prototypeItems
    ++ stubItems stubs
    ++ t.customCode.flatMap customItems

/-- The text of a unit. -/
def render (t : Target) (version runtimeHeader : String)
    (stubs : List LoweredStub) : String :=
  Code.render (document t version runtimeHeader stubs)

/-- The file name of the unit of a class. -/
def fileNameOf (owner : ClassName) : String :=
  Symbol.mangle owner.internal ++ ".jni.cpp"

/-- The entry of a method and its stub. -/
def entryOf (owner : ClassName) (m : MappedMethod) (signature : Signature)
    (stub : LoweredStub) : Entry where
  owner
  method := m.method.name
  descriptor := signature.descriptor
  entryPoint := signature.entryPoint
  function := stub.function

/-- The unit of a signed target. -/
def ofTarget (options : EmitOptions) (s : SignedTarget) : SourceUnit :=
  let owner := s.target.name
  let stubs := Lowering.lowerTarget s options.exceptionClass
  { owner
    fileName := fileNameOf owner
    contents := render s.target options.version options.runtimeHeader stubs
    entries := (s.methods.zip stubs).map fun ((m, signature), stub) =>
      entryOf owner m signature stub
    audits := stubs.map fun s => (s.stub.symbol, s.stub.audit) }

/-- The first of some audits that is not clean, as a fault. -/
def firstUnbalanced? (audits : List (String × Stub.Audit)) :
    Option Unbalanced :=
  (audits.find? fun (_, a) => !a.isClean).map fun (symbol, a) =>
    ⟨symbol,
      String.intercalate "; " (a.violations.map Stub.Violation.message)⟩

/-- The first stub of a unit that is not clean, as a fault. -/
def unbalanced? (u : SourceUnit) : Option Unbalanced :=
  firstUnbalanced? u.audits

end SourceUnit
end NativeGlue
