import NativeGlue.Code.Literal
import NativeGlue.Code.Document
import NativeGlue.Table.Basic

/-!
# The registration unit

The source of the unit that registers the entries of a table: declarations of
the functions, the stamp, an array of methods for each class with a list of
the arrays, and the functions that a loader calls.
-/

namespace NativeGlue

/-- The interface version that `JNI_OnLoad` asks for. -/
inductive JniVersion where
  | v1_6
  | v1_8
  | v9
  | v10
  | v19
  | v20
  | v21
deriving DecidableEq, Repr, Inhabited

namespace JniVersion

/-- Every version. -/
def all : List JniVersion :=
  [v1_6, v1_8, v9, v10, v19, v20, v21]

/-- The name of a version in a configuration. -/
def name : JniVersion → String
  | v1_6 => "1.6"
  | v1_8 => "1.8"
  | v9 => "9"
  | v10 => "10"
  | v19 => "19"
  | v20 => "20"
  | v21 => "21"

/-- The version with a given name. -/
def ofName? (s : String) : Option JniVersion :=
  all.find? fun version => version.name = s

/-- The name of a version in `jni.h`. -/
def constant : JniVersion → String
  | v1_6 => "JNI_VERSION_1_6"
  | v1_8 => "JNI_VERSION_1_8"
  | v9 => "JNI_VERSION_9"
  | v10 => "JNI_VERSION_10"
  | v19 => "JNI_VERSION_19"
  | v20 => "JNI_VERSION_20"
  | v21 => "JNI_VERSION_21"

end JniVersion

/-- How the registration unit is written. -/
structure RegistrationOptions where
  /-- The file name of the unit. -/
  unitName : String := "jnibridge_registration.cpp"
  /-- The header with the types of the stamp. -/
  runtimeHeader : String := "jnibridge_runtime.hpp"
  /-- Whether the unit defines `JNI_OnLoad`. -/
  emitOnLoad : Bool := true
  jniVersion : JniVersion := .v1_8
deriving DecidableEq, Repr, Inhabited

namespace Registration

open Code (Item stringLiteral)
open Code.Item

/-- The declarations of the functions; no block if there are none. -/
def declarations (entries : List Entry) : List Item :=
  if entries.isEmpty then
    []
  else
    [line "extern \"C\" \x7b"]
      ++ (entries.map fun e => line (e.function.declaration ++ ";"))
      ++ [line "\x7d", blank]

/-- The definition of the stamp. -/
def stampLine (s : Stamp) : Item :=
  line
    ("constexpr jnibridge::TableStamp kStamp\x7b"
      ++ stringLiteral s.version ++ ", " ++ toString s.entryCount ++ "u, "
      ++ s.fingerprint.render ++ "ull\x7d;")

/-- The row of one entry in the array of its class. -/
def methodRow (e : Entry) : Item :=
  line
    ("\x7bconst_cast<char*>(" ++ stringLiteral e.method
      ++ "), const_cast<char*>(" ++ stringLiteral e.descriptor
      ++ "), reinterpret_cast<void*>(&" ++ e.function.symbol ++ ")\x7d,")

/-- The array of the methods of one class. -/
def methodArray (index : Nat) (owner : ClassName) (entries : List Entry) :
    List Item :=
  [blank, line ("// " ++ owner.binary),
    openBlock ("JNINativeMethod kMethods" ++ toString index ++ "[] =")]
    ++ entries.map methodRow ++ [closeBlock ";"]

/-- The row of one class in the list of arrays. -/
def classRow (index : Nat) (owner : ClassName) (entries : List Entry) : Item :=
  line
    ("\x7b" ++ stringLiteral owner.internal ++ ", kMethods"
      ++ toString index ++ ", " ++ toString entries.length ++ "\x7d,")

/-- The list of the arrays; none if there is no class. -/
def classList (groups : List (ClassName × List Entry)) : List Item :=
  if groups.isEmpty then
    []
  else
    [blank, openBlock "struct ClassRegistration", line "const char* name;",
      line "JNINativeMethod* methods;", line "jint count;", closeBlock ";",
      blank, openBlock "const ClassRegistration kClasses[] ="]
      ++ (groups.zipIdx.map fun ((owner, entries), index) =>
        classRow index owner entries)
      ++ [closeBlock ";"]

/-- The function that gives the stamp. -/
def stampAccessor : List Item :=
  [openBlock
      "extern \"C\" const jnibridge::TableStamp* jnibridge_table_stamp()",
    line "return &kStamp;", closeBlock "", blank]

/-- The function that registers every class. -/
def registerFunction (noClasses : Bool) : List Item :=
  [openBlock "extern \"C\" jint jnibridge_register_natives(JNIEnv* env)"]
    ++ (if noClasses then
        [line "(void)env;"]
      else
        [openBlock "for (const ClassRegistration& cls : kClasses)",
          line "jclass clazz = env->FindClass(cls.name);",
          openBlock "if (clazz == nullptr)", line "return JNI_ERR;",
          closeBlock "",
          line
            "jint rc = env->RegisterNatives(clazz, cls.methods, cls.count);",
          line "env->DeleteLocalRef(clazz);",
          openBlock "if (rc != JNI_OK)", line "return rc;", closeBlock "",
          closeBlock ""])
    ++ [line "return JNI_OK;", closeBlock ""]

/-- The function that runs when the library is loaded. -/
def onLoad (version : JniVersion) : List Item :=
  [blank,
    openBlock "extern \"C\" JNIEXPORT jint JNICALL JNI_OnLoad(JavaVM* vm, void*)",
    line "JNIEnv* env = nullptr;",
    openBlock
      ("if (vm->GetEnv(reinterpret_cast<void**>(&env), " ++ version.constant
        ++ ") != JNI_OK)"),
    line "return JNI_ERR;", closeBlock "",
    line
      ("return jnibridge_register_natives(env) == JNI_OK ? "
        ++ version.constant ++ " : JNI_ERR;"),
    closeBlock ""]

/-- The registration unit as a document. -/
def document (t : Table) (options : RegistrationOptions) : List Item :=
  let groups := t.byClass
  [line ("// Generated by jnibridge " ++ t.stamp.version ++ ". Do not edit."),
    line "#include <jni.h>", blank,
    line ("#include \"" ++ options.runtimeHeader ++ "\""), blank]
    ++ declarations t.entries
    ++ [line "namespace \x7b", blank, stampLine t.stamp]
    ++ (groups.zipIdx.flatMap fun ((owner, entries), index) =>
      methodArray index owner entries)
    ++ classList groups
    ++ [blank, line "\x7d  // namespace", blank]
    ++ stampAccessor
    ++ registerFunction groups.isEmpty
    ++ (if options.emitOnLoad then onLoad options.jniVersion else [])

/-- The registration unit. -/
def render (t : Table) (options : RegistrationOptions) : String :=
  Code.render (document t options)

end Registration
end NativeGlue
