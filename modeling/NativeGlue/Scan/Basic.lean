import NativeGlue.Scan.Select

/-!
# Scanning a classpath

A scan reads all classes of a classpath, selects the targets among them, and
gives each target the native code that its metadata name.
-/

namespace NativeGlue

/-- What a scan found. -/
structure Scan where
  /-- The targets by name; methods as in the class file. -/
  targets : List Target
  classesScanned : Nat
deriving DecidableEq, Repr, Inhabited

namespace Scan

/-- Number of methods of all targets. -/
def methodCount (s : Scan) : Nat :=
  s.targets.foldl (fun n t => n + t.methods.length) 0

/-- The native code of some resources of a class. -/
def loadCode (fs : FileSystem) (classpath : List String) (owner : ClassName) :
    List String → Except ScanError (List CustomCode)
  | [] => .ok []
  | path :: rest =>
      match Classpath.readResource fs classpath path with
      | .error e => .error e
      | .ok none => .error (.missingResource owner path)
      | .ok (some contents) =>
          match loadCode fs classpath owner rest with
          | .error e => .error e
          | .ok code => .ok (⟨path, contents⟩ :: code)

/-- The target of a class, if the class has the marker and methods to bind. -/
def targetOf? (fs : FileSystem) (config : Config) (index : ClassIndex)
    (c : ClassFile) : Except ScanError (Option Target) :=
  if Selection.isMarked config index c then
    match Selection.ofClass? config index c with
    | .error e => .error e
    | .ok none => .ok none
    | .ok (some s) =>
        match loadCode fs config.classpath c.name s.codePaths with
        | .error e => .error e
        | .ok customCode => .ok (some { s.target with customCode })
  else
    .ok none

/-- The targets among some classes. -/
def targetsOf (fs : FileSystem) (config : Config) (index : ClassIndex) :
    List ClassFile → Except ScanError (List Target)
  | [] => .ok []
  | c :: rest =>
      match targetOf? fs config index c with
      | .error e => .error e
      | .ok found =>
          match targetsOf fs config index rest with
          | .error e => .error e
          | .ok targets => .ok (found.toList ++ targets)

/-- The scan of classes that have been read. -/
def ofIndex (fs : FileSystem) (config : Config) (index : ClassIndex) :
    Except ScanError Scan :=
  match targetsOf fs config index index.sorted with
  | .error e => .error e
  | .ok targets => .ok ⟨targets, index.size⟩

/-- The scan of the classpath of a configuration. -/
def run (fs : FileSystem) (config : Config) : Except ScanError Scan :=
  match Classpath.readRoots fs config.classpath with
  | .error e => .error e
  | .ok roots =>
      match ClassIndex.ofRoots roots with
      | .error e => .error e
      | .ok index => ofIndex fs config index

end Scan
end NativeGlue
