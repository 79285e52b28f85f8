import NativeGlue.Code.Document
import NativeGlue.Code.Identifier
import NativeGlue.Code.Literal
import NativeGlue.Mapping.Primitive
import NativeGlue.Stub.Basic

/-!
# Stubs as source text

The C++ text of a stub. A statement that names a slot which the stub does not
have writes nothing.
-/

namespace NativeGlue
namespace Stub

open Code (Item)

namespace Slot

/-- The type of the variable, and the expression that acquires the resource. -/
def acquisition (s : Slot) : String × String :=
  match s.kind with
  | .stringChars =>
      ("const char*", "env->GetStringUTFChars(" ++ s.source ++ ", nullptr)")
  | .arrayElements kind =>
      (kind.jniType ++ "*",
        "env->Get" ++ kind.functionName ++ "ArrayElements(" ++ s.source
          ++ ", nullptr)")
  | .globalRef => ("jobject", "env->NewGlobalRef(" ++ s.source ++ ")")
  | .localString =>
      ("jstring", "env->NewStringUTF(" ++ s.source ++ ".c_str())")
  | .localArray kind =>
      (kind.jniArrayType,
        "env->New" ++ kind.functionName ++ "Array(static_cast<jsize>("
          ++ s.source ++ ".size()))")

/-- Whether a resource is taken from an argument. -/
def isArgument (s : Slot) : Bool :=
  match s.kind with
  | .localString | .localArray _ => false
  | _ => true

/-- The line that acquires a slot; a null source gives a null variable. -/
def acquireLine (s : Slot) : String :=
  let (type, expr) := s.acquisition
  let value :=
    if s.nullable && s.isArgument then
      s.source ++ " != nullptr ? " ++ expr ++ " : nullptr"
    else
      expr
  type ++ " " ++ s.var ++ " = " ++ value ++ ";"

/-- The condition under which an acquisition has failed. -/
def failed (s : Slot) : String :=
  let isNull := s.var ++ " == nullptr"
  if s.nullable then s.source ++ " != nullptr && " ++ isNull else isNull

/-- The call that releases a slot. -/
def releaseCall (s : Slot) (mode : ReleaseMode) : String :=
  match s.kind with
  | .stringChars =>
      "env->ReleaseStringUTFChars(" ++ s.source ++ ", " ++ s.var ++ ");"
  | .arrayElements kind =>
      let flag :=
        match mode with
        | .commit => "0"
        | .abort => "JNI_ABORT"
      "env->Release" ++ kind.functionName ++ "ArrayElements(" ++ s.source
        ++ ", " ++ s.var ++ ", " ++ flag ++ ");"
  | .globalRef => "env->DeleteGlobalRef(" ++ s.var ++ ");"
  | .localString | .localArray _ => "env->DeleteLocalRef(" ++ s.var ++ ");"

/-- The line that releases a slot. -/
def releaseLine (s : Slot) (mode : ReleaseMode) : String :=
  let call := s.releaseCall mode
  if s.nullable then "if (" ++ s.var ++ " != nullptr) " ++ call else call

/-- The line that hands a slot on, if it takes one. -/
def transferLine? (s : Slot) (into : Option String) : Option String :=
  match s.kind, into with
  | .globalRef, some wrapper =>
      some ("jnibridge::GlobalRef " ++ wrapper ++ "(env, " ++ s.var ++ ");")
  | _, _ => none

end Slot

/-- The slot with a given number. -/
def slot? (s : Stub) (number : Nat) : Option Slot :=
  s.slots[number]?

/-- The line that returns a value. -/
def returnLine (s : Stub) : ReturnValue → String
  | .void => "return;"
  | .default => "return jnibridge::defaultReturn<" ++ s.returnType ++ ">();"
  | .expr text => "return " ++ text ++ ";"

/-- The opening of a handler. -/
def Catch.header : Catch → String
  | .std => "catch (const std::exception& e)"
  | .any => "catch (...)"

mutual

/-- A statement as source text. -/
def Stmt.items (s : Stub) : Stmt → List Item
  | .line text => [.line text]
  | .call text => [.line text]
  | .acquire number onFailure =>
      match s.slot? number with
      | none => []
      | some slot =>
          .line slot.acquireLine
            :: (if onFailure.isEmpty then
                []
              else
                .openBlock ("if (" ++ slot.failed ++ ")")
                  :: (Stmt.itemsAll s onFailure ++ [.closeBlock ""]))
  | .release number mode =>
      (s.slot? number).toList.map fun slot => .line (slot.releaseLine mode)
  | .transfer number into =>
      ((s.slot? number).bind fun slot => slot.transferLine? into).toList.map
        .line
  | .ifThen condition body =>
      .openBlock ("if (" ++ condition ++ ")")
        :: (Stmt.itemsAll s body ++ [.closeBlock ""])
  | .tryCatch body handlers =>
      .openBlock "try"
        :: (Stmt.itemsAll s body
          ++ (Handler.itemsAll s handlers ++ [.closeBlock ""]))
  | .raise className message =>
      [.line
        ("jnibridge::throwJava(env, " ++ Code.stringLiteral className ++ ", "
          ++ message ++ ");")]
  | .ret value _ => [.line (s.returnLine value)]

/-- A block as source text. -/
def Stmt.itemsAll (s : Stub) : List Stmt → List Item
  | [] => []
  | stmt :: rest => stmt.items s ++ Stmt.itemsAll s rest

/-- A handler as source text. -/
def Handler.items (s : Stub) : Handler → List Item
  | .mk exceptions body =>
      .reopenBlock exceptions.header :: Stmt.itemsAll s body

/-- Handlers as source text. -/
def Handler.itemsAll (s : Stub) : List Handler → List Item
  | [] => []
  | h :: rest => h.items s ++ Handler.itemsAll s rest

end

/-- A parameter as it is declared. -/
def paramText : String × String → String
  | (type, name) => if name.isEmpty then type else type ++ " " ++ name

/-- The line that opens the definition of a stub. -/
def header (s : Stub) : String :=
  "extern \"C\" JNIEXPORT " ++ s.returnType ++ " JNICALL " ++ s.symbol ++ "("
    ++ String.intercalate ", " (s.params.map paramText) ++ ")"

/-- The definition of a stub. -/
def items (s : Stub) : List Item :=
  .openBlock s.header :: (Stmt.itemsAll s s.body ++ [.closeBlock ""])

end Stub
end NativeGlue
