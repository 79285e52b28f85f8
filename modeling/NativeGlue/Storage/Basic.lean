import NativeGlue.Storage.Path

/-!
# Files and directories

The files that a run reads and writes, as a value: a map from locations to
files and directories. A location is a list of names from the working
directory, or from the root when the first name is `/`; names `..` in front
lead up from the working directory. The root, the working directory and those
above it are always directories.
-/

namespace NativeGlue

/-- What makes a path of no use for an access. -/
inductive Misuse where
  /-- No name has a NUL in it. -/
  | nulInPath
  /-- The system does not take the path where a file is to be moved. -/
  | badArgument
  /-- A file of a kind that is no root. -/
  | unknownRoot
deriving DecidableEq, Repr, Inhabited

/-- The words for a misuse. -/
def Misuse.words : Misuse → String
  | nulInPath => "file name contained an unexpected NUL byte"
  | badArgument => "Invalid argument (os error 22)"
  | unknownRoot => "not a directory, .jar, .zip or .class file"

/-- Why an access to a file failed. -/
inductive IoKind where
  | notFound
  | alreadyExists
  | isADirectory
  | notADirectory
  | resourceBusy
  /-- A name or a path is longer than it may be. -/
  | invalidFilename
  | invalidData
  | invalidInput (misuse : Misuse)
deriving DecidableEq, Repr, Inhabited

namespace IoKind

/-- The name of a kind of failure. -/
def name : IoKind → String
  | notFound => "NotFound"
  | alreadyExists => "AlreadyExists"
  | isADirectory => "IsADirectory"
  | notADirectory => "NotADirectory"
  | resourceBusy => "ResourceBusy"
  | invalidFilename => "InvalidFilename"
  | invalidData => "InvalidData"
  | invalidInput _ => "InvalidInput"

/-- The words for a failure. -/
def words : IoKind → String
  | notFound => "No such file or directory (os error 2)"
  | alreadyExists => "File exists (os error 17)"
  | isADirectory => "Is a directory (os error 21)"
  | notADirectory => "Not a directory (os error 20)"
  | resourceBusy => "Device or resource busy (os error 16)"
  | invalidFilename => "File name too long (os error 36)"
  | invalidData => "stream did not contain valid UTF-8"
  | invalidInput misuse => misuse.words

end IoKind

/-- An access that failed, and the path that it was for. -/
structure IoError where
  path : String
  kind : IoKind
deriving DecidableEq, Repr, Inhabited

/-- The wording of an access that failed, where a verb says what it was. -/
def IoError.message (verb : String) (e : IoError) : String :=
  "cannot " ++ verb ++ " '" ++ e.path ++ "': " ++ e.kind.words

/-- A place in a file system. -/
abbrev Location := List String

/-- What stands at a location. -/
inductive Node where
  | file (bytes : List UInt8)
  | directory
deriving DecidableEq, Repr, Inhabited

/-- The files and directories that there are, at most one at a location. -/
structure FileSystem where
  nodes : List (Location × Node)
  distinct : (nodes.map Prod.fst).Nodup
deriving DecidableEq, Repr

namespace FileSystem

/-- The working directory with nothing in it. -/
def empty : FileSystem := ⟨[], .nil⟩

instance : Inhabited FileSystem := ⟨empty⟩

/-- Whether a location is the root, the working directory, or above it. -/
def isFixed (place : Location) : Bool :=
  place = ["/"] || place.all fun name => name = ".."

/-- What stands at a location. -/
def node? (fs : FileSystem) (place : Location) : Option Node :=
  if isFixed place then some .directory else fs.nodes.lookup place

/-- The file system without what stands at a location. -/
def erase (fs : FileSystem) (place : Location) : FileSystem where
  nodes := fs.nodes.filter fun entry => entry.1 ≠ place
  distinct := (List.filter_sublist.map Prod.fst).nodup fs.distinct

/-- Nothing is left at a location that is erased. -/
theorem notMem_erase (fs : FileSystem) (place : Location) :
    place ∉ (fs.erase place).nodes.map Prod.fst := by
  simp [erase]

/-- The file system with a node put at a location. -/
def put (fs : FileSystem) (place : Location) (node : Node) : FileSystem where
  nodes := (fs.erase place).nodes ++ [(place, node)]
  distinct := by
    rw [List.map_append, List.nodup_append]
    refine ⟨(fs.erase place).distinct, by simp, ?_⟩
    intro a ha b hb hab
    obtain rfl : b = place := by simpa using hb
    exact fs.notMem_erase b (hab ▸ ha)

/-- Where the parts of a path start. -/
def start (path : String) : Location :=
  if Path.isAbsolute path then ["/"] else []

/-- One step from a directory: down to a name, or up with `..`. -/
def stepTo (dir : Location) (part : String) : Location :=
  if part = ".." then
    match dir.getLast? with
    | none | some ".." => dir ++ [".."]
    | some "/" => dir
    | some _ => dir.dropLast
  else
    dir ++ [part]

/-- The largest size of a name in bytes. -/
def maxNameSize : Nat := 255

/-- Whether a name is too long for a file or directory. -/
def isTooLong (part : String) : Bool :=
  maxNameSize < Text.byteLength part.toList

/-- The largest size of a path in bytes. -/
def maxPathSize : Nat := 4095

/-- What is wrong with a path, whatever files there are. -/
def pathFault? (path : String) : Option IoKind :=
  if path.toList.contains '\x00' then some (.invalidInput .nulInPath)
  else if path.isEmpty then some .notFound
  else if maxPathSize < Text.byteLength path.toList then some .invalidFilename
  else none

/-- Follows the parts of a path; all but the last lead through directories. -/
def follow (fs : FileSystem) (dir : Location) :
    List String → Except IoKind Location
  | [] => .ok dir
  | part :: rest =>
      match fs.node? dir with
      | none => .error .notFound
      | some (.file _) => .error .notADirectory
      | some .directory =>
          if isTooLong part then .error .invalidFilename
          else follow fs (stepTo dir part) rest

/-- The location of a path. -/
def locate (fs : FileSystem) (path : String) : Except IoKind Location :=
  match pathFault? path with
  | some kind => .error kind
  | none => fs.follow (start path) (Path.parts path)

/--
The directory that a path leads to before its last part, and that part. A path
without parts is a step from where it starts.
-/
def holder (fs : FileSystem) (path : String) :
    Except IoKind (Location × String) :=
  match pathFault? path with
  | some kind => .error kind
  | none =>
      let written := Path.written path
      let way := written.dropLast.filter fun part => part ≠ "."
      match fs.follow (start path) way with
      | .error kind => .error kind
      | .ok dir =>
          match fs.node? dir with
          | none => .error .notFound
          | some (.file _) => .error .notADirectory
          | some .directory => .ok (dir, written.getLast?.getD ".")

/-- What a path leads to. -/
def find (fs : FileSystem) (path : String) : Except IoKind Node :=
  match fs.locate path with
  | .error e => .error e
  | .ok l =>
      match fs.node? l with
      | none => .error .notFound
      | some (.file bytes) =>
          if Path.namesDirectory path then .error .notADirectory
          else .ok (.file bytes)
      | some .directory => .ok .directory

/-- The bytes of a file. -/
def read (fs : FileSystem) (path : String) : Except IoKind (List UInt8) :=
  match fs.find path with
  | .error e => .error e
  | .ok (.file bytes) => .ok bytes
  | .ok .directory => .error .isADirectory

/-- Whether a path leads to a directory. -/
def isDirectory (fs : FileSystem) (path : String) : Bool :=
  match fs.find path with
  | .ok .directory => true
  | _ => false

/-- Makes a directory in one that exists, where there is nothing. -/
def makeDir (fs : FileSystem) (path : String) : Except IoKind FileSystem :=
  match fs.holder path with
  | .error kind => .error kind
  | .ok (dir, name) =>
      if Path.isStep name then
        .error .alreadyExists
      else if isTooLong name then
        .error .invalidFilename
      else
        match fs.node? (dir ++ [name]) with
        | some _ => .error .alreadyExists
        | none => .ok (fs.put (dir ++ [name]) .directory)

/-- Makes a directory, unless there is one. -/
def ensureDir (fs : FileSystem) (path : String) : Except IoKind FileSystem :=
  match fs.makeDir path with
  | .ok fs => .ok fs
  | .error kind => if fs.isDirectory path then .ok fs else .error kind

/--
Makes a directory, given with those above it. Where one is missing above it,
that is made first, so a fault may leave some that were made.
-/
def makeEach (fs : FileSystem) :
    List String → FileSystem × Except IoKind Unit
  | [] => (fs, .ok ())
  | path :: above =>
      match fs.ensureDir path with
      | .ok fs => (fs, .ok ())
      | .error .notFound =>
          match fs.makeEach above with
          | (fs, .error kind) => (fs, .error kind)
          | (fs, .ok ()) =>
              match fs.ensureDir path with
              | .ok fs => (fs, .ok ())
              | .error kind => (fs, .error kind)
      | .error kind => (fs, .error kind)

/-- Makes a directory and those that lead to it, unless they are there. -/
def makeDirs (fs : FileSystem) (path : String) :
    FileSystem × Except IoKind Unit :=
  fs.makeEach (Path.ancestors path)

/-- Moves a file to a path, where it replaces one that is there. -/
def replace (fs : FileSystem) (path : String) (bytes : List UInt8) :
    Except IoKind FileSystem :=
  match fs.holder path with
  | .error (.invalidInput _) => .error (.invalidInput .badArgument)
  | .error kind => .error kind
  | .ok (dir, name) =>
      if Path.isStep name then
        .error .resourceBusy
      else if isTooLong name then
        .error .invalidFilename
      else if Path.namesDirectory path then
        .error .notADirectory
      else if fs.node? (dir ++ [name]) = some .directory then
        .error .isADirectory
      else
        .ok (fs.put (dir ++ [name]) (.file bytes))

/-- A name like those that files have while they are written. -/
def draftName : String := ".tmp000000"

/--
Writes a file, replacing one that is there. The file is made in the directory
that holds it, which must exist, and is then moved to its place.
-/
def write (fs : FileSystem) (path : String) (bytes : List UInt8) :
    Except IoKind FileSystem :=
  let folder := Path.folder path
  match pathFault? (Path.join folder draftName), fs.find folder with
  | some kind, _ => .error kind
  | none, .error kind => .error kind
  | none, .ok (.file _) => .error .notADirectory
  | none, .ok .directory => fs.replace path bytes

/-- Writes a file and makes the directories that lead to it. -/
def writeDeep (fs : FileSystem) (path : String) (bytes : List UInt8) :
    FileSystem × Except IoKind Unit :=
  match fs.makeDirs (Path.folder path) with
  | (fs, .error kind) => (fs, .error kind)
  | (fs, .ok ()) =>
      match fs.write path bytes with
      | .error kind => (fs, .error kind)
      | .ok fs => (fs, .ok ())

/-- Removes a file. -/
def remove (fs : FileSystem) (path : String) : Except IoKind FileSystem :=
  match fs.locate path with
  | .error e => .error e
  | .ok l =>
      match fs.node? l with
      | none => .error .notFound
      | some .directory => .error .isADirectory
      | some (.file _) => .ok (fs.erase l)

/-- What follows a location in another one that lies below it. -/
def below? : Location → Location → Option Location
  | [], rest => some rest
  | _ :: _, [] => none
  | a :: as, b :: bs => if a = b then below? as bs else none

/-- The order of locations: by the names on the way, one after another. -/
def locationLe : Location → Location → Bool
  | [], _ => true
  | _ :: _, [] => false
  | a :: as, b :: bs =>
      if a = b then locationLe as bs else Text.le a b

/--
What stands below a directory, with its way from there, in the order of a walk
that goes through each directory by name.
-/
def below (fs : FileSystem) (dir : Location) : List (Location × Node) :=
  let found := fs.nodes.filterMap fun (l, node) =>
    match below? dir l with
    | some (name :: rest) =>
        if isFixed dir && (name = "/" || name = "..") then none
        else some (name :: rest, node)
    | _ => none
  found.mergeSort fun a b => locationLe a.1 b.1

/-- The files below a directory, in the order of a walk. -/
def filesBelow (fs : FileSystem) (dir : Location) :
    List (Location × List UInt8) :=
  (fs.below dir).filterMap fun (way, node) =>
    match node with
    | .file bytes => some (way, bytes)
    | .directory => none

/-- The names of the files that stand directly in a directory. -/
def filesIn (fs : FileSystem) (dir : Location) : List String :=
  (fs.filesBelow dir).filterMap fun (way, _) =>
    match way with
    | [name] => some name
    | _ => none

/-- The paths of the files below a path, in order. -/
def list (fs : FileSystem) (path : String) : List String :=
  match fs.find path, fs.locate path with
  | .ok .directory, .ok dir =>
      ((fs.filesBelow dir).map fun (way, _) =>
        path ++ "/" ++ String.intercalate "/" way).mergeSort Text.le
  | _, _ => []

end FileSystem
end NativeGlue
