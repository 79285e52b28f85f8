import NativeGlue.Hash.Fingerprint
import NativeGlue.Mapping.Basic
import NativeGlue.Symbol.Overload
import NativeGlue.Symbol.Naming
import NativeGlue.Text.Json

/-!
# Reports

A report says what a run made and everything that it left out, so that one run
shows all that is wrong. It is written as text, and as a JSON document.
-/

namespace NativeGlue

/-- Why a class was left out. -/
def Collision.reason (c : Collision) : String :=
  match c.clash with
  | .sameParams other =>
      "same parameters as " ++ c.method ++ other
        ++ "; JNI names ignore the return type"
  | .claimed holder => "entry point already claimed by " ++ holder

/-- A target that has a unit. -/
structure TargetSummary where
  owner : ClassName
  /-- The file name of the unit. -/
  unit : String
  entries : Nat
deriving DecidableEq, Repr, Inhabited

/-- What became of the files of the output directory. -/
structure OutputSummary where
  written : List String := []
  unchanged : List String := []
  removed : List String := []
deriving DecidableEq, Repr, Inhabited

/-- The report on a run. -/
structure Report where
  version : String
  naming : NamingScheme
  classesScanned : Nat
  entryCount : Nat
  fingerprint : Fingerprint
  targets : List TargetSummary
  skippedMethods : List UnsupportedMethod
  skippedTargets : List Collision
  output : OutputSummary
deriving DecidableEq, Repr, Inhabited

namespace Report

/-- Whether anything was left out. -/
def hasSkips (r : Report) : Bool :=
  !r.skippedMethods.isEmpty || !r.skippedTargets.isEmpty

/-- A target in a JSON report. -/
def targetJson (t : TargetSummary) : Json :=
  .record
    [("class", .text t.owner.binary), ("unit", .text t.unit),
      ("entries", .number t.entries)]

/-- A method that was left out in a JSON report. -/
def methodJson (u : UnsupportedMethod) : Json :=
  .record
    [("class", .text u.owner.binary), ("method", .text u.method),
      ("descriptor", .text u.descriptor), ("offending", .text u.offending),
      ("reason", .text u.reason.message)]

/-- A class that was left out in a JSON report. -/
def collisionJson (c : Collision) : Json :=
  .record
    [("class", .text c.owner.binary), ("method", .text c.method),
      ("descriptor", .text c.descriptor), ("entry_point", .text c.entryPoint),
      ("reason", .text c.reason)]

/-- The files of a run in a JSON report. -/
def outputJson (o : OutputSummary) : Json :=
  let names (list : List String) : Json := .array (list.map .text)
  .record
    [("written", names o.written), ("unchanged", names o.unchanged),
      ("removed", names o.removed)]

/-- A report as a JSON document. -/
def toJson (r : Report) : Json :=
  .record
    [("generator_version", .text r.version), ("naming", .text r.naming.name),
      ("classes_scanned", .number r.classesScanned),
      ("entry_count", .number r.entryCount),
      ("fingerprint", .text r.fingerprint.render),
      ("targets", .array (r.targets.map targetJson)),
      ("skipped_methods", .array (r.skippedMethods.map methodJson)),
      ("skipped_targets", .array (r.skippedTargets.map collisionJson)),
      ("output", outputJson r.output)]

/-- The line of a target. -/
def targetLine (t : TargetSummary) : String :=
  "  " ++ t.owner.binary ++ " -> " ++ t.unit ++ " (" ++ toString t.entries
    ++ " entries)"

/-- The line of a class that was left out. -/
def collisionLine (c : Collision) : String :=
  "  " ++ c.owner.binary ++ ": " ++ c.method ++ c.descriptor ++ " on '"
    ++ c.entryPoint ++ "': " ++ c.reason

/-- Lines below a heading with their number; nothing without lines. -/
def headed (heading : String) (lines : List String) : List String :=
  if lines.isEmpty then []
  else (heading ++ " (" ++ toString lines.length ++ "):") :: lines

/-- The line on what was made. -/
def headLine (r : Report) : String :=
  "jnibridge " ++ r.version ++ ": " ++ toString r.entryCount
    ++ " entries from " ++ toString r.targets.length ++ " targets ("
    ++ toString r.classesScanned ++ " classes scanned, naming "
    ++ r.naming.name ++ ")"

/-- The line on files. -/
def outputLine (o : OutputSummary) : String :=
  "files: " ++ toString o.written.length ++ " written, "
    ++ toString o.unchanged.length ++ " unchanged, "
    ++ toString o.removed.length ++ " removed"

/-- The lines of a report. -/
def lines (r : Report) : List String :=
  [r.headLine, "table fingerprint " ++ r.fingerprint.render]
    ++ r.targets.map targetLine
    ++ headed "skipped methods"
      (r.skippedMethods.map fun u => "  " ++ u.message)
    ++ headed "skipped targets" (r.skippedTargets.map collisionLine)
    ++ [outputLine r.output]

/-- A report as text, without a line break at its end. -/
def render (r : Report) : String :=
  String.intercalate "\n" r.lines

end Report
end NativeGlue
