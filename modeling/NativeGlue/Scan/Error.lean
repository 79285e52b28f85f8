import NativeGlue.ClassFile.Error
import NativeGlue.ClassName
import NativeGlue.Descriptor.Parser
import NativeGlue.Storage.Basic

/-!
# Faults of a scan

A scan that leaves something out would silently drop bindings, so the first
fault ends it.
-/

namespace NativeGlue

/-- Why a classpath cannot be scanned. -/
inductive ScanError where
  | io (error : IoError)
  /-- A file is no archive, or a member of it cannot be unpacked. -/
  | archive (path : String)
  | malformed (origin : String) (cause : FormatError)
  | descriptor (owner : ClassName) (method : String) (cause : DescriptorError)
  /-- Metadata is inherited from a class that has none. -/
  | inheritFrom (owner parent : ClassName)
  /-- Native code of a class is not on the classpath. -/
  | missingResource (owner : ClassName) (path : String)
deriving DecidableEq, Repr, Inhabited

namespace ScanError

/-- The wording of a fault. -/
def message : ScanError → String
  | io e => e.message "read"
  | archive path => "cannot read archive '" ++ path ++ "'"
  | malformed origin cause =>
      "malformed class file '" ++ origin ++ "': " ++ cause.message
  | descriptor owner method cause =>
      "class '" ++ owner.binary ++ "' method '" ++ method ++ "': "
        ++ cause.message
  | inheritFrom owner parent =>
      "class '" ++ owner.binary ++ "' inherits metadata from '"
        ++ parent.binary ++ "', which is not a bridge class on the classpath"
  | missingResource owner path =>
      "class '" ++ owner.binary ++ "' references custom JNI code '" ++ path
        ++ "', which is not on the classpath"

end ScanError
end NativeGlue
