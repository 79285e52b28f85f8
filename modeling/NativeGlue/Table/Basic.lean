import NativeGlue.ClassName
import NativeGlue.Hash.Fingerprint

/-!
# The registration table

Every native method that the generated library registers is one entry of the
table: its class, name and descriptor, and the function that runs for it. A
stamp with the number of entries and the fingerprint of their sequence lets a
loader see whether library and classes belong together.
-/

namespace NativeGlue

/-- A native function: its symbol and enough of its type to declare it. -/
structure NativeFunction where
  symbol : String
  returnType : String
  /-- Types of the parameters, environment and receiver included. -/
  params : List String
deriving DecidableEq, Repr, Inhabited

namespace NativeFunction

/-- The declaration of the function. -/
def declaration (f : NativeFunction) : String :=
  "JNIEXPORT " ++ f.returnType ++ " JNICALL " ++ f.symbol ++ "("
    ++ String.intercalate ", " f.params ++ ")"

end NativeFunction

/-- A native method and the function registered for it. -/
structure Entry where
  owner : ClassName
  method : String
  descriptor : String
  entryPoint : String
  function : NativeFunction
deriving DecidableEq, Repr, Inhabited

/-- The fingerprint of an entry. -/
def Entry.fingerprint (e : Entry) : Fingerprint :=
  Fingerprint.ofBinding e.owner.internal e.method e.descriptor e.entryPoint

/-- What identifies a table. -/
structure Stamp where
  version : String
  entryCount : Nat
  fingerprint : Fingerprint
deriving DecidableEq, Repr, Inhabited

/-- The entries to register, with their stamp. -/
structure Table where
  stamp : Stamp
  entries : List Entry
deriving DecidableEq, Repr, Inhabited

/-- The fault of a table for which no method was found at all. -/
structure EmptyTable where
  classesScanned : Nat
deriving DecidableEq, Repr, Inhabited

/-- The wording of the fault. -/
def EmptyTable.message (e : EmptyTable) : String :=
  "no bindings discovered on the classpath ("
    ++ toString e.classesScanned ++ " classes scanned)"

namespace Table

/-- The largest count that a stamp holds. -/
def maxEntryCount : Nat := 4294967295

/-- The stamp of entries under a version. -/
def stampOf (version : String) (entries : List Entry) : Stamp where
  version
  entryCount := min maxEntryCount entries.length
  fingerprint := Fingerprint.empty.chainAll (entries.map Entry.fingerprint)

/--
The table of some entries. Entries may be missing because methods were left
out, but at least one method must have been found.
-/
def build (version : String) (methodsFound classesScanned : Nat)
    (entries : List Entry) : Except EmptyTable Table :=
  if methodsFound = 0 then
    .error ⟨classesScanned⟩
  else
    .ok ⟨stampOf version entries, entries⟩

/-- Neighbouring entries of one class put together. -/
def groups : List Entry → List (ClassName × List Entry)
  | [] => []
  | e :: rest =>
      match groups rest with
      | [] => [(e.owner, [e])]
      | (owner, members) :: others =>
          if e.owner = owner then
            (owner, e :: members) :: others
          else
            (e.owner, [e]) :: (owner, members) :: others

/-- The entries of a table, class by class. -/
def byClass (t : Table) : List (ClassName × List Entry) :=
  groups t.entries

end Table
end NativeGlue
