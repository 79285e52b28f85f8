import NativeGlue.Config.Basic
import NativeGlue.Storage.Basic
import NativeGlue.Toml.Document

/-!
# Reading configurations

A configuration is a record of settings, each with a default. A record may be
written as a table, by name, or as an array, by position; a name that is not
known, or given twice under two spellings, makes it unreadable.
-/

namespace NativeGlue

/-- Why a configuration cannot be used. -/
inductive ConfigError where
  | io (error : IoError)
  /-- The text is no configuration. -/
  | unreadable
  | invalid (setting : InvalidSetting)
deriving DecidableEq, Repr, Inhabited

/-- The wording of a fault. -/
def ConfigError.message : ConfigError → String
  | io e => e.message "read config"
  | unreadable => "cannot parse config"
  | invalid setting => setting.message

namespace Config

open Toml (Value)

/-- How values are written down. -/
inductive Format where
  | toml
  | json
deriving DecidableEq, Repr, Inhabited

/-- A setting, with the other spelling that some have. -/
structure Field where
  name : String
  spelling : String := name
deriving DecidableEq, Repr, Inhabited

/-- The name of the setting that a key stands for. -/
def settingOf? (fields : List Field) (key : String) : Option String :=
  (fields.find? fun f => f.name = key || f.spelling = key).map Field.name

/-- Entries by the names of settings, each of them at most once. -/
def settings? (fields : List Field) :
    List (String × Value) → Option (List (String × Value))
  | [] => some []
  | (key, v) :: rest =>
      match settingOf? fields key, settings? fields rest with
      | some name, some given =>
          if (given.lookup name).isSome then none
          else some ((name, v) :: given)
      | _, _ => none

/-- The settings of a record. Only TOML passes over items without a field. -/
def record? (format : Format) (fields : List Field) :
    Value → Option (List (String × Value))
  | .table entries => settings? fields entries
  | .array items =>
      if format = .json ∧ fields.length < items.length then none
      else some ((fields.map Field.name).zip items)
  | _ => none

/-- A setting, or its default where it is not given. -/
def settingOr {α : Type} (given : List (String × Value)) (name : String)
    (default : α) (read : Value → Option α) : Option α :=
  match given.lookup name with
  | none => some default
  | some v => read v

/-- A value that is a text. -/
def text? : Value → Option String
  | .string text => some text
  | _ => none

/-- A value that is a list of texts. -/
def texts? : Value → Option (List String)
  | .array items => items.mapM text?
  | _ => none

/-- A value that is a truth value. -/
def flag? : Value → Option Bool
  | .boolean b => some b
  | _ => none

/-- A text that may be absent. -/
def textOrNull? : Value → Option (Option String)
  | .null => some none
  | .string text => some (some text)
  | _ => none

/-- A value that holds nothing. -/
def isNothing : Format → Value → Bool
  | .json, .null => true
  | .toml, .array [] => true
  | .toml, .table [] => true
  | _, _ => false

/-- One of some names, alone or as the only key of a table with nothing in it. -/
def choice? {α : Type} (format : Format) (ofName? : String → Option α) :
    Value → Option α
  | .string name => ofName? name
  | .table [(name, content)] =>
      if isNothing format content then ofName? name else none
  | _ => none

/-- A marker of some kind with what is written beside the kind. -/
def markerOfTable? (kind : String) (rest : List (String × Value)) :
    Option Marker :=
  if kind = "native-methods" then some .nativeMethods
  else
    match rest with
    | [("name", .string name)] =>
        if kind = "annotation" then some (.annotated name)
        else if kind = "interface" then some (.implementing name)
        else none
    | _ => none

/-- Reads a marker. -/
def marker? : Value → Option Marker
  | .table entries =>
      match entries.lookup "kind" with
      | some (.string kind) =>
          markerOfTable? kind (entries.filter fun (key, _) => key ≠ "kind")
      | _ => none
  | .array [.string kind] =>
      if kind = "native-methods" then some .nativeMethods else none
  | .array [.string kind, .string name] =>
      if kind = "annotation" then some (.annotated name)
      else if kind = "interface" then some (.implementing name)
      else none
  | _ => none

/-- The settings of annotation names. -/
def annotationFields : List Field :=
  [⟨"bridge_class", "bridge_class"⟩, ⟨"metadata", "metadata"⟩,
    ⟨"native_name", "native_name"⟩, ⟨"method_namespace", "method_namespace"⟩,
    ⟨"takes_ownership", "takes_ownership"⟩,
    ⟨"ignore_nullcheck", "ignore_nullcheck"⟩]

/-- Reads the names of annotations. -/
def annotations? (format : Format) (v : Value) : Option AnnotationNames := do
  let given ← record? format annotationFields v
  let names : AnnotationNames := {}
  let bridgeClass ← settingOr given "bridge_class" names.bridgeClass text?
  let metadata ← settingOr given "metadata" names.metadata text?
  let nativeName ← settingOr given "native_name" names.nativeName text?
  let methodNamespace ←
    settingOr given "method_namespace" names.methodNamespace text?
  let takesOwnership ←
    settingOr given "takes_ownership" names.takesOwnership text?
  let ignoreNullcheck ←
    settingOr given "ignore_nullcheck" names.ignoreNullcheck text?
  return { bridgeClass, metadata, nativeName, methodNamespace, takesOwnership,
           ignoreNullcheck }

/-- The settings of the registration unit. -/
def registrationFields : List Field :=
  [⟨"unit_name", "unit_name"⟩, ⟨"runtime_header", "runtime_header"⟩,
    ⟨"emit_on_load", "emit_on_load"⟩, ⟨"jni_version", "jni_version"⟩]

/-- Reads how the registration unit is written. -/
def registration? (format : Format) (v : Value) :
    Option RegistrationOptions := do
  let given ← record? format registrationFields v
  let options : RegistrationOptions := {}
  let unitName ← settingOr given "unit_name" options.unitName text?
  let runtimeHeader ←
    settingOr given "runtime_header" options.runtimeHeader text?
  let emitOnLoad ← settingOr given "emit_on_load" options.emitOnLoad flag?
  let jniVersion ←
    settingOr given "jni_version" options.jniVersion
      (choice? format JniVersion.ofName?)
  return { unitName, runtimeHeader, emitOnLoad, jniVersion }

/-- The settings of a configuration. -/
def configFields : List Field :=
  [⟨"classpath", "classpath"⟩, ⟨"output_dir", "outputDirectory"⟩,
    ⟨"naming", "namingScheme"⟩, ⟨"strict", "strictMode"⟩,
    ⟨"marker", "markerSelector"⟩, ⟨"annotations", "annotations"⟩,
    ⟨"exclude_methods", "exclude_methods"⟩,
    ⟨"exception_class", "exception_class"⟩,
    ⟨"registration", "registration"⟩, ⟨"report", "report"⟩]

/-- Reads a configuration. -/
def ofValue? (format : Format) (v : Value) : Option Config := do
  let given ← record? format configFields v
  let usual : Config := {}
  let classpath ← settingOr given "classpath" usual.classpath texts?
  let outputDir ← settingOr given "output_dir" usual.outputDir text?
  let naming ←
    settingOr given "naming" usual.naming (choice? format NamingScheme.ofName?)
  let strict ← settingOr given "strict" usual.strict flag?
  let marker ← settingOr given "marker" usual.marker marker?
  let annotations ←
    settingOr given "annotations" usual.annotations (annotations? format)
  let excludeMethods ←
    settingOr given "exclude_methods" usual.excludeMethods texts?
  let exceptionClass ←
    settingOr given "exception_class" usual.exceptionClass text?
  let registration ←
    settingOr given "registration" usual.registration (registration? format)
  let report ← settingOr given "report" usual.report textOrNull?
  return { classpath, outputDir, naming, strict, marker, annotations,
           excludeMethods, exceptionClass, registration, report }

/-- Reads a configuration in TOML. -/
def parse (source : String) : Except ConfigError Config :=
  match (Toml.parse source).bind (ofValue? .toml) with
  | some c => .ok c
  | none => .error .unreadable

/-- Reads the configuration of a file; its paths are taken from there. -/
def load (fs : FileSystem) (path : String) : Except ConfigError Config :=
  match fs.read path with
  | .error kind => .error (.io ⟨path, kind⟩)
  | .ok bytes =>
      match Text.ofUtf8? bytes with
      | none => .error (.io ⟨path, .invalidData⟩)
      | some source =>
          match parse source with
          | .error e => .error e
          | .ok c =>
              match Path.parent? path with
              | none => .ok c
              | some base => .ok (c.relativeTo base)

end Config
end NativeGlue
