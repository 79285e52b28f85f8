import NativeGlue.Plan.Basic

/-!
# Writing plans

The output directory is brought to what a plan says: a file that already holds
the right bytes is left alone, and units of classes that are no longer bound
are removed. A fault ends the writing and leaves what was written before it.
-/

namespace NativeGlue
namespace Plan

/-- The ending of the units of targets. -/
def unitEnding : String := ".jni.cpp"

/-- Writes a file that does not hold some bytes yet, and says if it did so. -/
def writeIfChanged (fs : FileSystem) (path : String) (bytes : List UInt8) :
    Except IoKind (Bool × FileSystem) :=
  match fs.read path with
  | .ok found =>
      if found = bytes then .ok (false, fs)
      else (fs.write path bytes).map fun fs => (true, fs)
  | .error _ => (fs.write path bytes).map fun fs => (true, fs)

/-- Writes files into a directory, one after another. -/
def writeArtifacts (dir : String) :
    FileSystem → OutputSummary → List Artifact →
      FileSystem × Except IoError OutputSummary
  | fs, done, [] => (fs, .ok done)
  | fs, done, a :: rest =>
      let path := Path.join dir a.fileName
      match writeIfChanged fs path (Text.utf8 a.contents) with
      | .error kind => (fs, .error ⟨path, kind⟩)
      | .ok (true, fs) =>
          writeArtifacts dir fs
            { done with written := done.written ++ [a.fileName] } rest
      | .ok (false, fs) =>
          writeArtifacts dir fs
            { done with unchanged := done.unchanged ++ [a.fileName] } rest

/-- The units in a directory that no artifact of a plan is, by name. -/
def staleUnits (fs : FileSystem) (dir : Location) (artifacts : List Artifact) :
    List String :=
  (fs.filesIn dir).filter fun name =>
    Text.hasEnding unitEnding name
      && !(artifacts.any fun a => a.fileName = name)

/-- Removes files from a directory, one after another. -/
def removeUnits (dir : String) (place : Location) :
    FileSystem → List String → FileSystem × Except IoError Unit
  | fs, [] => (fs, .ok ())
  | fs, name :: rest =>
      let path := Path.join dir name
      match FileSystem.pathFault? path with
      | some kind => (fs, .error ⟨path, kind⟩)
      | none => removeUnits dir place (fs.erase (place ++ [name])) rest

/-- Removes units that no artifact of a plan is, and gives their names. -/
def removeStale (fs : FileSystem) (dir : String) (artifacts : List Artifact) :
    FileSystem × Except IoError (List String) :=
  match fs.locate dir with
  | .error kind => (fs, .error ⟨dir, kind⟩)
  | .ok place =>
      let stale := staleUnits fs place artifacts
      match removeUnits dir place fs stale with
      | (fs, .error e) => (fs, .error e)
      | (fs, .ok ()) => (fs, .ok stale)

/-- Writes the JSON report to a path, making directories on the way. -/
def writeReport (fs : FileSystem) (path : String) (r : Report) :
    FileSystem × Except IoError Report :=
  let parent := (Path.parent? path).getD ""
  match fs.makeDirs parent with
  | (fs, .error kind) => (fs, .error ⟨parent, kind⟩)
  | (fs, .ok ()) =>
      match writeIfChanged fs path (Text.utf8 r.toJson.render) with
      | .error kind => (fs, .error ⟨path, kind⟩)
      | .ok (_, fs) => (fs, .ok r)

/-- Writes a plan into the output directory of a configuration. -/
def write (fs : FileSystem) (config : Config) (plan : Plan) :
    FileSystem × Except IoError Report :=
  let dir := config.outputDir
  match fs.makeDirs dir with
  | (fs, .error kind) => (fs, .error ⟨dir, kind⟩)
  | (fs, .ok ()) =>
      match writeArtifacts dir fs {} plan.artifacts with
      | (fs, .error e) => (fs, .error e)
      | (fs, .ok done) =>
          match removeStale fs dir plan.artifacts with
          | (fs, .error e) => (fs, .error e)
          | (fs, .ok removed) =>
              let report :=
                { plan.report with output := { done with removed } }
              match config.report with
              | none => (fs, .ok report)
              | some path => writeReport fs path report

/-- Scans, plans and writes. -/
def generate (fs : FileSystem) (config : Config) :
    FileSystem × Except GenerationError Report :=
  match ofClasspath fs config with
  | .error e => (fs, .error e)
  | .ok plan =>
      let (fs, result) := plan.write fs config
      (fs, result.mapError .io)

end Plan
end NativeGlue
