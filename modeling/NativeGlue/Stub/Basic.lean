import NativeGlue.Primitive

/-!
# Stubs

A stub is the native function that the virtual machine calls. Its body is a
list of statements in which every acquisition and release of a resource is
explicit, so that each way through the body can be checked.
-/

namespace NativeGlue
namespace Stub

/-- What a slot holds. -/
inductive Resource where
  /-- The characters of a string argument. -/
  | stringChars
  /-- The elements of an array argument. -/
  | arrayElements (kind : Primitive)
  /-- A global reference to an object argument. -/
  | globalRef
  /-- A string made for the result. -/
  | localString
  /-- An array made for the result. -/
  | localArray (kind : Primitive)
deriving DecidableEq, Repr, Inhabited

namespace Resource

/-- Every kind of resource. -/
def all : List Resource :=
  [stringChars, globalRef, localString] ++ Primitive.all.map arrayElements
    ++ Primitive.all.map localArray

/-- The words for a resource. -/
def name : Resource → String
  | stringChars => "StringChars"
  | arrayElements kind => "ArrayElements:" ++ kind.name
  | globalRef => "GlobalRef"
  | localString => "LocalString"
  | localArray kind => "LocalArray:" ++ kind.name

/-- The resource with the given words. -/
def ofName? (s : String) : Option Resource :=
  all.find? fun resource => resource.name = s

end Resource

/-- A resource that a stub acquires. -/
structure Slot where
  /-- The variable that holds the resource. -/
  var : String
  /-- The expression that it is acquired from. -/
  source : String
  kind : Resource
  /-- The source may be null; then there is nothing to acquire or release. -/
  nullable : Bool
deriving DecidableEq, Repr, Inhabited

/-- Whether changes to array elements are copied back. -/
inductive ReleaseMode where
  | commit
  | abort
deriving DecidableEq, Repr, Inhabited

/-- The word for a mode. -/
def ReleaseMode.name : ReleaseMode → String
  | commit => "commit"
  | abort => "abort"

/-- Why a stub ends. -/
inductive Exit where
  | normal
  | nullArgument
  | acquireFailed
  | nativeException
  /-- A C++ exception leaves the stub. -/
  | unwind
deriving DecidableEq, Repr, Inhabited

namespace Exit

/-- Every kind of exit. -/
def all : List Exit :=
  [normal, nullArgument, acquireFailed, nativeException, unwind]

/-- The word for a kind of exit. -/
def name : Exit → String
  | normal => "Normal"
  | nullArgument => "NullArgument"
  | acquireFailed => "AcquireFailed"
  | nativeException => "NativeException"
  | unwind => "Unwind"

/-- The kind of exit with a given word. -/
def ofName? (s : String) : Option Exit :=
  all.find? fun exit => exit.name = s

end Exit

/-- What a stub returns. -/
inductive ReturnValue where
  | void
  /-- The default of the type; an exception is pending. -/
  | default
  | expr (text : String)
deriving DecidableEq, Repr, Inhabited

/-- The exceptions that a handler catches. -/
inductive Catch where
  /-- Exceptions that derive from `std::exception`. -/
  | std
  /-- All exceptions. -/
  | any
deriving DecidableEq, Repr, Inhabited

/-- The word for what a handler catches. -/
def Catch.name : Catch → String
  | std => "std"
  | any => "any"

mutual

/-- A statement of a stub. -/
inductive Stmt where
  /-- A statement that neither throws nor returns. -/
  | line (text : String)
  /--
  Acquires a slot. When acquisition fails, `onFailure` runs with the slot not
  held; if it is empty, failure needs no care.
  -/
  | acquire (slot : Nat) (onFailure : List Stmt)
  | release (slot : Nat) (mode : ReleaseMode)
  /-- Hands the resource to a wrapper, or to the caller. -/
  | transfer (slot : Nat) (into : Option String)
  /-- The call of the implementation: the only statement that may throw. -/
  | call (text : String)
  | ifThen (condition : String) (body : List Stmt)
  | tryCatch (body : List Stmt) (handlers : List Handler)
  /-- Makes a Java exception pending; the stub goes on. -/
  | raise (className : String) (message : String)
  | ret (value : ReturnValue) (exit : Exit)

/-- A handler of a `tryCatch`. -/
inductive Handler where
  | mk (exceptions : Catch) (body : List Stmt)

end

instance : Inhabited Stmt := ⟨.line ""⟩

instance : Inhabited Handler := ⟨.mk .any []⟩

end Stub

/-- A stub with its signature, its resources and its body. -/
structure Stub where
  symbol : String
  returnType : String
  /-- Types and names of the parameters; a name may be empty. -/
  params : List (String × String)
  slots : List Stub.Slot
  body : List Stub.Stmt
deriving Inhabited

namespace Stub

/-- Whether the stub returns nothing. -/
def returnsVoid (s : Stub) : Bool :=
  s.returnType = "void"

mutual

/-- Number of statements in a statement that satisfy a predicate. -/
def Stmt.count (p : Stmt → Bool) : Stmt → Nat
  | s@(.acquire _ onFailure) => (p s).toNat + Stmt.countAll p onFailure
  | s@(.ifThen _ body) => (p s).toNat + Stmt.countAll p body
  | s@(.tryCatch body handlers) =>
      (p s).toNat + (Stmt.countAll p body + Handler.countAll p handlers)
  | s => (p s).toNat

/-- Number of statements in a block that satisfy a predicate. -/
def Stmt.countAll (p : Stmt → Bool) : List Stmt → Nat
  | [] => 0
  | s :: rest => s.count p + Stmt.countAll p rest

/-- Number of statements in a handler that satisfy a predicate. -/
def Handler.count (p : Stmt → Bool) : Handler → Nat
  | .mk _ body => Stmt.countAll p body

/-- Number of statements in handlers that satisfy a predicate. -/
def Handler.countAll (p : Stmt → Bool) : List Handler → Nat
  | [] => 0
  | h :: rest => h.count p + Handler.countAll p rest

end

/-- Number of statements in a stub that satisfy a predicate. -/
def count (p : Stmt → Bool) (s : Stub) : Nat :=
  Stmt.countAll p s.body

/-- What a statement does. -/
inductive Operation where
  | acquire
  | release
  | transfer
  | call
  | ret
deriving DecidableEq, Repr

/-- The operation of a statement; some have none. -/
def Stmt.operation? : Stmt → Option Operation
  | .acquire .. => some .acquire
  | .release .. => some .release
  | .transfer .. => some .transfer
  | .call _ => some .call
  | .ret .. => some .ret
  | _ => none

end Stub
end NativeGlue
