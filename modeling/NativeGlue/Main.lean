import NativeGlue.CommandLine.Run

/-!
# The program

The outer layer of the command line: it takes the files that a command may
look at from the system, runs the command on them, and brings the system's
files to what the command made of them.
-/

namespace NativeGlue
namespace Program

/-- Adds what stands at a path, and below it, to some files. -/
partial def load (fs : FileSystem) (path : String) : IO FileSystem := do
  let place := System.mkFilePath [path]
  if ← place.isDir then
    (← place.readDir).foldlM
      (fun fs entry => load fs (Path.join path entry.fileName))
      (fs.makeDirs path).1
  else if ← place.pathExists then
    let bytes ← IO.FS.readBinFile place
    return (fs.writeDeep path bytes.toList).1
  else
    return fs

/-- Adds what stands at some paths. -/
def loadAll (fs : FileSystem) (paths : List String) : IO FileSystem :=
  paths.foldlM load fs

/-- The configuration file that a command names. -/
def configPath : CommandLine.Command → List String
  | .generate input _ => input.config.toList
  | .scan input => input.config.toList
  | .version => []

/-- The paths that a command with a configuration looks at. -/
def pathsOf (command : CommandLine.Command) (config : Config) : List String :=
  match command with
  | .generate _ _ =>
      config.outputDir :: config.report.toList ++ config.classpath
  | .scan _ => config.classpath
  | .version => []

/-- The files that a command line may look at. -/
def filesOf (words : List String) : IO FileSystem := do
  match CommandLine.parse words with
  | none => return .empty
  | some command =>
      let fs ← loadAll .empty (configPath command)
      match CommandLine.configOf fs command with
      | .error _ => return fs
      | .ok config => loadAll fs (pathsOf command config)

/-- The path of a location. -/
def pathOf (place : Location) : String :=
  match place with
  | "/" :: names => "/" ++ String.intercalate "/" names
  | names => String.intercalate "/" names

/-- Puts a node where it belongs in the system. -/
def store (place : Location) (node : Node) : IO Unit := do
  let path := System.mkFilePath [pathOf place]
  match node with
  | .directory => IO.FS.createDirAll path
  | .file bytes => IO.FS.writeBinFile path ⟨bytes.toArray⟩

/-- Brings the system from the files before a run to those after it. -/
def save (before after : FileSystem) : IO Unit := do
  for (place, node) in before.nodes do
    if (after.node? place).isNone && node ≠ .directory then
      IO.FS.removeFile (System.mkFilePath [pathOf place])
  for (place, node) in after.nodes do
    if before.node? place ≠ some node then
      store place node

end Program
end NativeGlue

/-- Runs the command line, and gives the code that the run ends with. -/
def main (words : List String) : IO UInt32 := do
  let before ← NativeGlue.Program.filesOf words
  let (after, outcome) := NativeGlue.CommandLine.run before words
  NativeGlue.Program.save before after
  IO.print outcome.stdout
  unless outcome.fault.isEmpty do
    IO.eprintln outcome.fault
  return UInt32.ofNat outcome.code
