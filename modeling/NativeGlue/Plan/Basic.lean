import NativeGlue.Config.Read
import NativeGlue.Plan.Report
import NativeGlue.Scan.Basic
import NativeGlue.Stub.Unit
import NativeGlue.Symbol.Signature
import NativeGlue.Table.Registration
import NativeGlue.Table.RuntimeHeader

/-!
# Plans

A plan has every file of a run as text, with the table and the report. Types
without a native form take methods out of it, and colliding entry points take
out classes; nothing is written before the plan is complete.
-/

namespace NativeGlue

/-- The version that is written into every file. -/
def generatorVersion : String := "0.1.0"

/-- Why there is no output. -/
inductive GenerationError where
  | config (error : ConfigError)
  | scan (error : ScanError)
  /-- A method that would be left out, where none may be. -/
  | strict (method : UnsupportedMethod)
  | emptyTable (error : EmptyTable)
  | unbalanced (error : Unbalanced)
  | io (error : IoError)
deriving DecidableEq, Repr, Inhabited

/-- The wording of a fault. -/
def GenerationError.message : GenerationError → String
  | config e => e.message
  | scan e => e.message
  | strict u => "strict mode: " ++ u.message
  | emptyTable e => e.message
  | unbalanced e => e.message
  | io e => e.message "write"

/-- A file for the output directory. -/
structure Artifact where
  fileName : String
  contents : String
deriving DecidableEq, Repr, Inhabited

/-- A run that has not been written. -/
structure Plan where
  table : Table
  /-- The units by target, the runtime header, and the registration unit. -/
  artifacts : List Artifact
  report : Report
deriving DecidableEq, Repr, Inhabited

namespace Plan

/-- The method that ends a strict run: the first that would be left out. -/
def strictFault? (config : Config) (mapped : List MappedTarget) :
    Option UnsupportedMethod :=
  if config.strict then (mapped.flatMap MappedTarget.skipped).head? else none

/--
Signs targets one after another. A target without mapped methods is passed
over, and one that collides leaves the registry as it was.
-/
def signAll (naming : NamingScheme) :
    Registry → List MappedTarget → List SignedTarget × List Collision
  | _, [] => ([], [])
  | registry, m :: rest =>
      if m.methods.isEmpty then
        signAll naming registry rest
      else
        match SignedTarget.sign naming registry m with
        | (.error collision, registry) =>
            let (signed, collisions) := signAll naming registry rest
            (signed, collision :: collisions)
        | (.ok s, registry) =>
            let (signed, collisions) := signAll naming registry rest
            (s :: signed, collisions)

/-- How the units of a configuration are written. -/
def emitOptions (config : Config) : EmitOptions where
  version := generatorVersion
  exceptionClass := config.exceptionName.internal
  runtimeHeader := config.registration.runtimeHeader

/-- The line of a unit in the report. -/
def summary (u : SourceUnit) : TargetSummary :=
  ⟨u.owner, u.fileName, u.entries.length⟩

/-- The files of a run. -/
def artifactsOf (config : Config) (units : List SourceUnit) (table : Table) :
    List Artifact :=
  (units.map fun u => ⟨u.fileName, u.contents⟩)
    ++ [⟨config.registration.runtimeHeader,
          RuntimeHeader.render generatorVersion⟩,
        ⟨config.registration.unitName,
          Registration.render table config.registration⟩]

/-- The report on a run that has not been written. -/
def reportOf (config : Config) (scan : Scan) (mapped : List MappedTarget)
    (units : List SourceUnit) (collisions : List Collision) (table : Table) :
    Report where
  version := generatorVersion
  naming := config.naming
  classesScanned := scan.classesScanned
  entryCount := table.entries.length
  fingerprint := table.stamp.fingerprint
  targets := units.map summary
  skippedMethods := mapped.flatMap MappedTarget.skipped
  skippedTargets := collisions
  output := {}

/-- The plan of a scan under a configuration without faults. -/
def ofScan (config : Config) (scan : Scan) : Except GenerationError Plan :=
  let mapped := scan.targets.map Mapping.mapTarget
  match strictFault? config mapped with
  | some u => .error (.strict u)
  | none =>
      let (signed, collisions) :=
        signAll config.naming Registry.empty mapped
      let units := signed.map (SourceUnit.ofTarget (emitOptions config))
      match units.findSome? SourceUnit.unbalanced? with
      | some u => .error (.unbalanced u)
      | none =>
          match Table.build generatorVersion scan.methodCount
            scan.classesScanned (units.flatMap SourceUnit.entries) with
          | .error e => .error (.emptyTable e)
          | .ok table =>
              .ok
                { table
                  artifacts := artifactsOf config units table
                  report :=
                    reportOf config scan mapped units collisions table }

/-- The plan of a scan; the configuration is checked first. -/
def make (config : Config) (scan : Scan) : Except GenerationError Plan :=
  match config.fault? with
  | some fault => .error (.config (.invalid fault))
  | none => ofScan config scan

/-- The plan of the classpath of a configuration. -/
def ofClasspath (fs : FileSystem) (config : Config) :
    Except GenerationError Plan :=
  match config.fault? with
  | some fault => .error (.config (.invalid fault))
  | none =>
      match Scan.run fs config with
      | .error e => .error (.scan e)
      | .ok scan => ofScan config scan

end Plan
end NativeGlue
