import NativeGlue.Code.Identifier
import NativeGlue.Code.Literal
import NativeGlue.Stub.Basic
import NativeGlue.Symbol.Signature
import NativeGlue.Table.Basic

/-!
# Lowering a method to its stub

Every stub has the same shape:

* null checks of the arguments that it acquires, unless suppressed; a null
  argument raises a Java exception and returns;
* acquisitions in the order of the parameters; when one fails, what was
  acquired before is released, latest first, and the stub returns;
* inside a `tryCatch`: owned objects move into wrappers, the implementation is
  called, the rest is released, latest first, and the result is converted;
* two handlers, which release, raise a Java exception and return.

An argument whose null check is suppressed may be null; its acquisition and
its release are then skipped for null.
-/

namespace NativeGlue

/-- A stub with the function that it calls. -/
structure LoweredStub where
  stub : Stub
  /-- The namespace of the implementation; empty for the global one. -/
  space : List String
  /-- The prototype of the implementation, without a semicolon. -/
  prototype : String
  /-- The function to register. -/
  function : NativeFunction
deriving Inhabited

namespace Lowering

open Stub

/--
The namespace of an implementation: set by the method, else by its target,
else the package of the class.
-/
def spaceOf (t : Target) (m : Method) : List String :=
  match m.space.or t.space with
  | some space => Code.splitSpace space
  | none => t.name.packageSegments.map Code.sanitize

/-- The variable of an argument. -/
def argName (index : Nat) : String := "a" ++ toString index

/-- An argument that the stub acquires. -/
structure Argument where
  /-- The position of its parameter. -/
  index : Nat
  resource : Resource
  nullable : Bool
deriving DecidableEq, Repr, Inhabited

namespace Argument

/-- The letter before the number in the variable of a resource. -/
def letter : Resource → String
  | .stringChars => "s"
  | .arrayElements _ => "e"
  | _ => "g"

/-- The variable that holds the acquired resource. -/
def var (a : Argument) : String :=
  letter a.resource ++ toString a.index

/-- The slot of an argument. -/
def slot (a : Argument) : Slot where
  var := a.var
  source := argName a.index
  kind := a.resource
  nullable := a.nullable

/-- Whether the argument is an object that changes owner. -/
def isObject (a : Argument) : Bool :=
  a.resource = .globalRef

end Argument

/-- The resource that an owned argument is acquired as. -/
def argumentResource? : Carriage → Option Resource
  | .string => some .stringChars
  | .array kind => some (.arrayElements kind)
  | .object _ => some .globalRef
  | .primitive _ => none

/-- The arguments that a stub acquires, in order. -/
def arguments (m : MappedMethod) : List Argument :=
  m.ownedParams.filterMap fun (index, p) =>
    (argumentResource? p.carriage).map fun resource =>
      ⟨index, resource, !m.method.nullChecked index⟩

/-- A return without a result. -/
def returnDefault (m : MappedMethod) (exit : Exit) : Stmt :=
  .ret (if m.ret.jniType = "void" then .void else .default) exit

/-- Releases of slots, the latest first. -/
def releaseAll (mode : ReleaseMode) (slots : List Nat) : List Stmt :=
  slots.reverse.map fun slot => .release slot mode

/-- The exception for a null argument. -/
def nullPointerException : String := "java/lang/NullPointerException"

/-- The check that an argument is not null. -/
def nullCheck (owner : ClassName) (m : MappedMethod) (a : Argument) : Stmt :=
  let message :=
    "argument " ++ toString a.index ++ " of " ++ owner.binary ++ "."
      ++ m.method.name ++ " is null"
  .ifThen (argName a.index ++ " == nullptr")
    [.raise nullPointerException (Code.stringLiteral message),
      returnDefault m .nullArgument]

/-- The checks of all arguments that may not be null. -/
def nullChecks (owner : ClassName) (m : MappedMethod) : List Stmt :=
  ((arguments m).filter fun a => !a.nullable).map (nullCheck owner m)

/-- The line that takes the length of an array argument. -/
def lengthLine (a : Argument) : List Stmt :=
  match a.resource with
  | .arrayElements _ =>
      let name := argName a.index
      let length := "env->GetArrayLength(" ++ name ++ ")"
      let value :=
        if a.nullable then name ++ " != nullptr ? " ++ length ++ " : 0"
        else length
      [.line ("const jsize n" ++ toString a.index ++ " = " ++ value ++ ";")]
  | _ => []

/-- The acquisition of arguments from a slot on, with earlier slots held. -/
def acquisitions (m : MappedMethod) (slot : Nat) :
    List Argument → List Stmt
  | [] => []
  | a :: rest =>
      lengthLine a
        ++ .acquire slot
            (releaseAll .abort (List.range slot)
              ++ [returnDefault m .acquireFailed])
        :: acquisitions m (slot + 1) rest

/-- The slots of arguments that satisfy a predicate. -/
def slotsWhere (m : MappedMethod) (p : Argument → Bool) : List Nat :=
  ((arguments m).zipIdx.filter fun (a, _) => p a).map Prod.snd

/-- The variable of the wrapper that an object moves into. -/
def wrapperName (index : Nat) : String := "r" ++ toString index

/-- Moves owned objects into wrappers. -/
def transfers (m : MappedMethod) : List Stmt :=
  ((arguments m).zipIdx.filter fun (a, _) => a.isObject).map
    fun (a, slot) => .transfer slot (some (wrapperName a.index))

/-- The slots that are held during the call. -/
def heldSlots (m : MappedMethod) : List Nat :=
  slotsWhere m fun a => !a.isObject

/-- The expression that is passed for a parameter. -/
def passed (index : Nat) (p : MappedType) : String :=
  match p.carriage with
  | .primitive kind => kind.toCpp (argName index)
  | .string => "s" ++ toString index
  | .array kind =>
      "jnibridge::Span<" ++ kind.jniType ++ ">\x7be" ++ toString index
        ++ ", static_cast<std::size_t>(n" ++ toString index ++ ")\x7d"
  | .object true => "std::move(" ++ wrapperName index ++ ")"
  | .object false => argName index

/-- The call of the implementation. -/
def callLine (m : MappedMethod) (space : List String) (implementation : String) :
    String :=
  let receiver := if m.method.flags.isStatic then [] else ["self"]
  let args :=
    "env" :: (receiver ++ m.params.zipIdx.map fun (p, i) => passed i p)
  let call :=
    Code.qualify space implementation ++ "(" ++ String.intercalate ", " args
      ++ ");"
  if m.ret.jniType = "void" then call else "auto result = " ++ call

/-- The resource that a result is made as, if it is made at all. -/
def resultResource? : Carriage → Option Resource
  | .string => some .localString
  | .array kind => some (.localArray kind)
  | _ => none

/-- Fills an array made for the result, unless it could not be made. -/
def fillResult : Resource → List Stmt
  | .localArray kind =>
      [.ifThen "out != nullptr"
        [.line
          ("env->Set" ++ kind.functionName
            ++ "ArrayRegion(out, 0, static_cast<jsize>(result.size()), "
            ++ "result.data());")]]
  | _ => []

/-- The statements that convert the result and return it. -/
def returnResult (m : MappedMethod) : List Stmt :=
  match resultResource? m.ret.carriage with
  | some resource =>
      let slot := (arguments m).length
      .acquire slot [] :: fillResult resource
        ++ [.transfer slot none, .ret (.expr "out") .normal]
  | none =>
      match m.ret.carriage with
      | .primitive kind =>
          if kind.isVoid then
            [.ret .void .normal]
          else
            [.ret (.expr (kind.toJni "result")) .normal]
      | _ => [.ret (.expr "result") .normal]

/-- A handler: releases what is held and raises a Java exception. -/
def handler (m : MappedMethod) (exceptionClass : String)
    (exceptions : Catch) (message : String) : Handler :=
  .mk exceptions
    (releaseAll .abort (heldSlots m)
      ++ [.raise exceptionClass message, returnDefault m .nativeException])

/-- The call with all that is done around it. -/
def guardedCall (m : MappedMethod) (space : List String)
    (implementation exceptionClass : String) : Stmt :=
  .tryCatch
    (transfers m
      ++ .call (callLine m space implementation)
      :: releaseAll .commit (heldSlots m)
      ++ returnResult m)
    [handler m exceptionClass .std "e.what()",
      handler m exceptionClass .any
        (Code.stringLiteral "unknown native exception")]

/-- The body of a stub. -/
def body (owner : ClassName) (m : MappedMethod) (space : List String)
    (implementation exceptionClass : String) : List Stmt :=
  nullChecks owner m ++ acquisitions m 0 (arguments m)
    ++ [guardedCall m space implementation exceptionClass]

/-- The slots of a stub: its arguments, and its result if it is made. -/
def slots (m : MappedMethod) : List Slot :=
  (arguments m).map Argument.slot
    ++ (resultResource? m.ret.carriage).toList.map fun kind =>
      ⟨"out", "result", kind, false⟩

/-- The parameters of a stub. -/
def stubParams (m : MappedMethod) : List (String × String) :=
  ("JNIEnv*", "env")
    :: (if m.method.flags.isStatic then ("jclass", "") else ("jobject", "self"))
    :: m.params.zipIdx.map fun (p, i) => (p.jniType, argName i)

/-- The prototype of an implementation. -/
def prototype (m : MappedMethod) (implementation : String) : String :=
  let receiver := if m.method.flags.isStatic then [] else ["jobject self"]
  let params :=
    "JNIEnv* env"
      :: (receiver
        ++ m.params.zipIdx.map fun (p, i) => p.cppType ++ " " ++ argName i)
  m.ret.cppType ++ " " ++ implementation ++ "("
    ++ String.intercalate ", " params ++ ")"

/-- The stub of a method, with a given name of the implementation. -/
def lower (t : Target) (m : MappedMethod) (signature : Signature)
    (implementation exceptionClass : String) : LoweredStub :=
  let space := spaceOf t m.method
  { stub :=
      { symbol := signature.entryPoint
        returnType := m.ret.jniType
        params := stubParams m
        slots := slots m
        body := body t.name m space implementation exceptionClass }
    space
    prototype := prototype m implementation
    function :=
      { symbol := signature.entryPoint
        returnType := m.ret.jniType
        params := (stubParams m).map Prod.fst } }

end Lowering
end NativeGlue
