import NativeGlue.Config.Marker
import NativeGlue.Storage.Path
import NativeGlue.Symbol.Naming
import NativeGlue.Table.Registration

/-!
# Configurations

Everything that a run has to know: where classes are, which of them are bound,
how symbols are named, and where the output goes.
-/

namespace NativeGlue

/-- The names of the annotations that are read, in either form. -/
structure AnnotationNames where
  /-- On a class: namespace, native code and metadata. -/
  bridgeClass : String := "com.jnibridge.annotations.BridgeClass"
  /-- On a class or inside the annotation above. -/
  metadata : String := "com.jnibridge.annotations.BridgeMetadata"
  nativeName : String := "com.jnibridge.annotations.Name"
  methodNamespace : String :=
    "com.jnibridge.annotations.mapping.MethodNamespace"
  /-- On a method whose arguments and result change their owner. -/
  takesOwnership : String := "com.jnibridge.annotations.lifecycle.Allocate"
  /-- On a method or a parameter that is not checked for null. -/
  ignoreNullcheck : String :=
    "com.jnibridge.annotations.modifiers.IgnoreNullcheck"
deriving DecidableEq, Repr, Inhabited

/-- The names of the annotations with those of their settings. -/
def AnnotationNames.fields (a : AnnotationNames) : List (String × String) :=
  [("annotations.bridge_class", a.bridgeClass),
    ("annotations.metadata", a.metadata),
    ("annotations.native_name", a.nativeName),
    ("annotations.method_namespace", a.methodNamespace),
    ("annotations.takes_ownership", a.takesOwnership),
    ("annotations.ignore_nullcheck", a.ignoreNullcheck)]

/-- A configuration. -/
structure Config where
  /-- Directories, archives and class files, searched in order. -/
  classpath : List String := []
  outputDir : String := "generated"
  naming : NamingScheme := .jni
  /-- Whether a type without a native form ends the run. -/
  strict : Bool := false
  marker : Marker := .annotated "com.jnibridge.annotations.BridgeClass"
  annotations : AnnotationNames := {}
  /-- Names of methods that are never bound. -/
  excludeMethods : List String := ["destruct"]
  /-- The Java exception that C++ exceptions become. -/
  exceptionClass : String := "com/jnibridge/exception/JniBridgeException"
  registration : RegistrationOptions := {}
  /-- Where a report is written. -/
  report : Option String := none
deriving DecidableEq, Repr, Inhabited

/-- A setting with a value that cannot be used. -/
structure InvalidSetting where
  field : String
  detail : String
deriving DecidableEq, Repr, Inhabited

/-- The wording of the fault. -/
def InvalidSetting.message (e : InvalidSetting) : String :=
  "invalid config value for '" ++ e.field ++ "': " ++ e.detail

namespace Config

/-- The exception class in internal form. -/
def exceptionName (c : Config) : ClassName :=
  ClassName.ofBinary c.exceptionClass

/-- Whether a text is the name of a file without a path to it. -/
def isPlainFileName (name : String) : Bool :=
  name ≠ "" && name.toList.all (fun c => c ≠ '/' && c ≠ '\\')
    && name ≠ "." && name ≠ ".."

/-- The fault of a setting that should name a class. -/
def classFault? (field shown : String) (c : ClassName) :
    Option InvalidSetting :=
  if c.isValid then none
  else some ⟨field, "'" ++ shown ++ "' is not a class name"⟩

/-- A fault that is there if a condition holds. -/
def faultIf (condition : Bool) (field detail : String) :
    Option InvalidSetting :=
  if condition then some ⟨field, detail⟩ else none

/-- What could be wrong with a configuration, setting by setting. -/
def checks (c : Config) : List (Option InvalidSetting) :=
  let unit := c.registration.unitName
  [faultIf c.classpath.isEmpty "classpath" "at least one entry is required",
    faultIf c.outputDir.isEmpty "output_dir" "must not be empty",
    c.marker.class?.bind fun name => classFault? "marker" name.binary name]
    ++ (c.annotations.fields.map fun (field, name) =>
      classFault? field name (ClassName.ofBinary name))
    ++ [classFault? "exception_class" c.exceptionClass c.exceptionName,
      faultIf (!(isPlainFileName unit && Text.hasEnding ".cpp" unit))
        "registration.unit_name" "must be a plain *.cpp file name",
      faultIf (Text.hasEnding ".jni.cpp" unit)
        "registration.unit_name" "must not end in .jni.cpp",
      faultIf (!isPlainFileName c.registration.runtimeHeader)
        "registration.runtime_header" "must be a plain file name"]

/-- The first fault of a configuration. -/
def fault? (c : Config) : Option InvalidSetting :=
  c.checks.findSome? id

/-- The configuration with its paths taken from a directory. -/
def relativeTo (base : String) (c : Config) : Config :=
  { c with
    classpath := c.classpath.map (Path.join base)
    outputDir := Path.join base c.outputDir
    report := c.report.map (Path.join base) }

end Config
end NativeGlue
