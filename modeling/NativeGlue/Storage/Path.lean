import NativeGlue.Text.Basic

/-!
# Paths

A path is kept as it was written. Its parts stand between slashes; empty parts
and `.` count only at the start, where `.` is the working directory and a
slash the root.
-/

namespace NativeGlue
namespace Path

/-- Whether a path starts at the root. -/
def isAbsolute (p : String) : Bool :=
  p.toList.head? = some '/'

/-- A path below another one; an absolute path replaces it. -/
def join (base p : String) : String :=
  if isAbsolute p then p
  else if base.isEmpty || base.toList.getLast? = some '/' then base ++ p
  else base ++ "/" ++ p

/-- A reversed path without the slashes and dots at its end that say nothing. -/
def trimEnd : List Char → List Char
  | '/' :: c :: rest => trimEnd (c :: rest)
  | '.' :: '/' :: rest => trimEnd ('/' :: rest)
  | rev => rev

/-- The path of the directory that holds a file. -/
def parent? (p : String) : Option String :=
  match trimEnd p.toList.reverse with
  | [] => none
  | ['/'] => none
  | rev =>
      some (String.ofList (trimEnd (rev.dropWhile (· ≠ '/'))).reverse)

/-- The directory that holds a file, where the working directory is `.`. -/
def folder (p : String) : String :=
  match parent? p with
  | none | some "" => "."
  | some dir => dir

/-- The last part of a path, unless it only leads to a directory. -/
def fileName? (p : String) : Option String :=
  let name :=
    String.ofList
      ((trimEnd p.toList.reverse).takeWhile (· ≠ '/')).reverse
  if name = "" ∨ name = "." ∨ name = ".." then none else some name

/-- What follows the last dot of a file name that does not start with it. -/
def extension? (p : String) : Option String :=
  match fileName? p with
  | none => none
  | some name =>
      let rev := name.toList.reverse
      match rev.dropWhile (· ≠ '.') with
      | '.' :: _ :: _ => some (String.ofList (rev.takeWhile (· ≠ '.')).reverse)
      | _ => none

/-- The parts of a path that are written, dots among them. -/
def written (p : String) : List String :=
  ((Text.fields '/' p.toList).map String.ofList).filter fun part => part ≠ ""

/-- The parts of a path that lead somewhere. -/
def parts (p : String) : List String :=
  (written p).filter fun part => part ≠ "."

/-- Whether a part of a path is a step to a directory, and no name. -/
def isStep (part : String) : Bool :=
  part = "." || part = ".."

/-- A path and the paths of directories above it, at most `fuel` of them. -/
def ancestorsUpTo : Nat → String → List String
  | 0, _ => []
  | fuel + 1, p =>
      if p.isEmpty then
        []
      else
        match parent? p with
        | none => [p]
        | some dir => p :: ancestorsUpTo fuel dir

/--
A path and the paths of the directories above it, from the path itself to the
first part. Each of them is shorter than the one before.
-/
def ancestors (p : String) : List String :=
  ancestorsUpTo p.length p

/-- Whether a path can only be that of a directory. -/
def namesDirectory (p : String) : Bool :=
  let rev := p.toList.reverse
  trimEnd rev ≠ rev

end Path
end NativeGlue
