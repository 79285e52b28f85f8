import NativeGlue.CommandLine.Arguments
import NativeGlue.Plan.Output

/-!
# Running commands

A command runs on the files that there are, prints on its standard output, and
ends with a code: 0, 1 after a fault, 2 for a command line without meaning.
-/

namespace NativeGlue
namespace CommandLine

/-- How a run ends. -/
structure Outcome where
  code : Nat
  stdout : String := ""
  /-- What is wrong, if something is. -/
  fault : String := ""
deriving DecidableEq, Repr, Inhabited

/-- The end of a run that succeeds. -/
def success (stdout : String) : Outcome := { code := 0, stdout }

/-- The end of a run with a fault. -/
def failure (fault : String) : Outcome := { code := 1, fault }

/-- The end of a run whose command line has no meaning. -/
def usageFault : Outcome :=
  { code := 2, fault := "usage: jnibridge generate|scan [options]" }

/-- The configuration that a command starts with. -/
def baseConfig (fs : FileSystem) (path : Option String) :
    Except ConfigError Config :=
  match path with
  | none => .ok {}
  | some path => Config.load fs path

/-- A configuration with what the command line says about input. -/
def withInput (input : InputOptions) (c : Config) : Config :=
  { c with
    classpath :=
      if input.classpath.isEmpty then c.classpath else input.classpath
    marker := input.marker.getD c.marker }

/-- A configuration with what the command line says about output. -/
def withOutput (output : OutputOptions) (c : Config) : Config :=
  { c with
    outputDir := output.outputDir.getD c.outputDir
    naming := output.naming.getD c.naming
    strict := c.strict || output.strict
    report := output.report.or c.report }

/-- The configuration that a command runs with. -/
def configOf (fs : FileSystem) : Command → Except ConfigError Config
  | .version => .ok {}
  | .scan input => (baseConfig fs input.config).map (withInput input)
  | .generate input output =>
      (baseConfig fs input.config).map
        fun c => withOutput output (withInput input c)

/-- The line of a method in a listing. -/
def methodLine (m : Method) : String :=
  "    " ++ m.signature ++ " ["
    ++ (if m.flags.isStatic then "static" else "instance") ++ "] -> "
    ++ m.nativeName

/-- The lines of a target in a listing. -/
def targetLines (t : Target) : List String :=
  (t.name.binary ++ " (" ++ t.kind.name ++ ", "
    ++ toString t.methods.length ++ " methods)")
    :: t.methods.map methodLine

/-- The listing of a scan. -/
def listing (s : Scan) : String :=
  let total :=
    toString s.targets.length ++ " targets, " ++ toString s.methodCount
      ++ " methods, " ++ toString s.classesScanned ++ " classes scanned"
  String.join
    ((s.targets.flatMap targetLines ++ [total]).map fun line => line ++ "\n")

/-- Runs `scan`. -/
def runScan (fs : FileSystem) (config : Config) : Outcome :=
  match config.fault? with
  | some fault => failure fault.message
  | none =>
      match Scan.run fs config with
      | .error e => failure e.message
      | .ok scan => success (listing scan)

/-- Runs `generate`. -/
def runGenerate (fs : FileSystem) (config : Config) : FileSystem × Outcome :=
  match Plan.generate fs config with
  | (fs, .error e) => (fs, failure e.message)
  | (fs, .ok report) => (fs, success (report.render ++ "\n"))

/-- Runs a command. -/
def runCommand (fs : FileSystem) (command : Command) : FileSystem × Outcome :=
  match configOf fs command with
  | .error e => (fs, failure e.message)
  | .ok config =>
      match command with
      | .version => (fs, success ("jnibridge " ++ generatorVersion ++ "\n"))
      | .scan _ => (fs, runScan fs config)
      | .generate _ _ => runGenerate fs config

/-- Runs a command line. -/
def run (fs : FileSystem) (words : List String) : FileSystem × Outcome :=
  match parse words with
  | none => (fs, usageFault)
  | some command => runCommand fs command

end CommandLine
end NativeGlue
