import NativeGlue.Archive.Zip
import NativeGlue.Scan.Error

/-!
# The classpath

A classpath is a list of roots, and a root is a directory, an archive or a
class file. From a root come the bytes of its classes, in a fixed order, and
the resources that lie beside them.
-/

namespace NativeGlue

/-- The bytes of a class file, and the place that they are from. -/
structure ClassSource where
  /-- A path; a member of an archive follows it after `!`. -/
  origin : String
  bytes : List UInt8
deriving DecidableEq, Repr, Inhabited

/-- The kinds of roots. -/
inductive RootKind where
  | directory
  | archive
  | classFile
deriving DecidableEq, Repr, Inhabited

/-- The word for a kind of root. -/
def RootKind.name : RootKind → String
  | directory => "Directory"
  | archive => "Archive"
  | classFile => "ClassFile"

namespace Classpath

/-- A text without the slashes that it starts with. -/
def trimSlashes (s : String) : String :=
  String.ofList (s.toList.dropWhile (· = '/'))

/-- The name of the class file without its ending, folders cut off. -/
def stem? (path : String) : Option String :=
  let ending := ".class".toList
  let cs := path.toList
  if ending.isSuffixOf cs then
    let stem := cs.take (cs.length - ending.length)
    some (String.ofList ((Text.splitLast? '/' stem).elim stem Prod.snd))
  else
    none

/--
Whether a path inside a root names a class. Descriptions of modules and
packages are none, and the variants of classes under `META-INF` are left out.
-/
def isClassEntry (path : String) : Bool :=
  let path := trimSlashes path
  match stem? path with
  | none => false
  | some name =>
      !("META-INF/".toList.isPrefixOf path.toList)
        && name ≠ "module-info" && name ≠ "package-info"

/-- The kind of a root, which must be there. -/
def kindOf (fs : FileSystem) (root : String) : Except ScanError RootKind :=
  match fs.find root with
  | .error kind => .error (.io ⟨root, kind⟩)
  | .ok .directory => .ok .directory
  | .ok (.file _) =>
      match Path.extension? root with
      | none => .error (.io ⟨root, .invalidInput .unknownRoot⟩)
      | some ext =>
          if ext.toLower = "jar" ∨ ext.toLower = "zip" then .ok .archive
          else if ext = "class" then .ok .classFile
          else .error (.io ⟨root, .invalidInput .unknownRoot⟩)

/-- The bytes of a file that is a root. -/
def readFile (fs : FileSystem) (path : String) :
    Except ScanError (List UInt8) :=
  match fs.read path with
  | .error kind => .error (.io ⟨path, kind⟩)
  | .ok bytes => .ok bytes

/--
The classes among what a walk through a directory finds. The walk must be able
to go into each directory, but it only looks into the files of classes.
-/
def collect (root : String) :
    List (Location × Node) → Except ScanError (List ClassSource)
  | [] => .ok []
  | (way, node) :: rest =>
      let relative := String.intercalate "/" way
      let path := Path.join root relative
      let source? : Option ClassSource :=
        match node with
        | .directory => none
        | .file bytes =>
            if isClassEntry (Text.replaceChar '\\' '/' relative) then
              some ⟨path, bytes⟩
            else
              none
      match FileSystem.pathFault? path with
      | some kind =>
          if node = .directory || source?.isSome then
            .error (.io ⟨path, kind⟩)
          else
            collect root rest
      | none =>
          match collect root rest with
          | .error e => .error e
          | .ok sources => .ok (source?.toList ++ sources)

/-- The classes below a directory. -/
def readDirectory (fs : FileSystem) (root : String) :
    Except ScanError (List ClassSource) :=
  match fs.locate root with
  | .error kind => .error (.io ⟨root, kind⟩)
  | .ok dir => collect root (fs.below dir)

/-- The archive of a path. -/
def openArchive (fs : FileSystem) (path : String) :
    Except ScanError ZipArchive :=
  match readFile fs path with
  | .error e => .error e
  | .ok bytes =>
      match ZipArchive.read? bytes with
      | none => .error (.archive path)
      | some archive => .ok archive

/-- The members of an archive that are classes, by name. -/
def classMembers (archive : ZipArchive) : List ZipMember :=
  (archive.members.filter fun m => isClassEntry m.name).mergeSort
    fun a b => Text.le a.name b.name

/-- The classes among some members of an archive. -/
def unpack (path : String) (archive : ZipArchive) :
    List ZipMember → Except ScanError (List ClassSource)
  | [] => .ok []
  | m :: rest =>
      match archive.contents? m, unpack path archive rest with
      | some bytes, .ok sources =>
          .ok (⟨path ++ "!" ++ m.name, bytes⟩ :: sources)
      | _, _ => .error (.archive path)

/-- The classes of an archive. -/
def readArchive (fs : FileSystem) (path : String) :
    Except ScanError (List ClassSource) :=
  match openArchive fs path with
  | .error e => .error e
  | .ok archive => unpack path archive (classMembers archive)

/-- The classes under a root. -/
def readRoot (fs : FileSystem) (root : String) :
    Except ScanError (List ClassSource) :=
  match kindOf fs root with
  | .error e => .error e
  | .ok .directory => readDirectory fs root
  | .ok .archive => readArchive fs root
  | .ok .classFile =>
      match readFile fs root with
      | .error e => .error e
      | .ok bytes => .ok [⟨root, bytes⟩]

/-- The classes under each root of a classpath. -/
def readRoots (fs : FileSystem) :
    List String → Except ScanError (List (List ClassSource))
  | [] => .ok []
  | root :: rest =>
      match readRoot fs root with
      | .error e => .error e
      | .ok sources =>
          match readRoots fs rest with
          | .error e => .error e
          | .ok others => .ok (sources :: others)

/-- The bytes of a resource under a root, if the root has it. -/
def resourceIn (fs : FileSystem) (root resource : String) :
    Except ScanError (Option (List UInt8)) :=
  match kindOf fs root with
  | .error e => .error e
  | .ok .classFile => .ok none
  | .ok .directory => .ok (fs.read (Path.join root resource)).toOption
  | .ok .archive =>
      match openArchive fs root with
      | .error e => .error e
      | .ok archive =>
          match archive.member? resource with
          | none => .ok none
          | some m =>
              match archive.contents? m with
              | none => .error (.archive root)
              | some bytes => .ok (some bytes)

/-- The text of a resource in the first root that has it. -/
def findResource (fs : FileSystem) (resource : String) :
    List String → Except ScanError (Option String)
  | [] => .ok none
  | root :: rest =>
      match resourceIn fs root resource with
      | .error e => .error e
      | .ok none => findResource fs resource rest
      | .ok (some bytes) =>
          match Text.ofUtf8? bytes with
          | none => .error (.io ⟨Path.join root resource, .invalidData⟩)
          | some text => .ok (some text)

/-- The text of a resource; slashes in front of its name do not count. -/
def readResource (fs : FileSystem) (roots : List String) (resource : String) :
    Except ScanError (Option String) :=
  findResource fs (trimSlashes resource) roots

end Classpath
end NativeGlue
