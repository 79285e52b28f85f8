import NativeGlue.Primitive

/-!
# Native types of primitives

Each primitive has a type in `jni.h` and a C++ type of the same width that the
implementation sees, with an expression that converts each way.
-/

namespace NativeGlue
namespace Primitive

/-- The type in `jni.h`. -/
def jniType : Primitive → String
  | void => "void"
  | boolean => "jboolean"
  | byte => "jbyte"
  | char => "jchar"
  | short => "jshort"
  | int => "jint"
  | long => "jlong"
  | float => "jfloat"
  | double => "jdouble"

/-- The type that the implementation sees. -/
def cppType : Primitive → String
  | void => "void"
  | boolean => "bool"
  | byte => "std::int8_t"
  | char => "char16_t"
  | short => "std::int16_t"
  | int => "std::int32_t"
  | long => "std::int64_t"
  | float => "float"
  | double => "double"

/-- The type in `jni.h` of an array of the primitive. -/
def jniArrayType (kind : Primitive) : String :=
  kind.jniType ++ "Array"

/-- The name of the primitive in names of array functions. -/
def functionName : Primitive → String
  | void => "Void"
  | boolean => "Boolean"
  | byte => "Byte"
  | char => "Char"
  | short => "Short"
  | int => "Int"
  | long => "Long"
  | float => "Float"
  | double => "Double"

/-- An expression converted to the C++ type. -/
def toCpp (kind : Primitive) (expr : String) : String :=
  match kind with
  | boolean => expr ++ " != JNI_FALSE"
  | float | double | void => expr
  | kind => "static_cast<" ++ kind.cppType ++ ">(" ++ expr ++ ")"

/-- An expression converted back to the type in `jni.h`. -/
def toJni (kind : Primitive) (expr : String) : String :=
  match kind with
  | boolean => expr ++ " ? JNI_TRUE : JNI_FALSE"
  | float | double | void => expr
  | kind => "static_cast<" ++ kind.jniType ++ ">(" ++ expr ++ ")"

end Primitive
end NativeGlue
