import NativeGlue.Archive.Bytes
import NativeGlue.Archive.CodePage437
import NativeGlue.Archive.Crc32
import NativeGlue.Archive.Directory
import NativeGlue.Archive.ExtraField
import NativeGlue.Archive.Inflate
import NativeGlue.Archive.Zip
import NativeGlue.Ascending
import NativeGlue.Binding
import NativeGlue.ClassFile.Access
import NativeGlue.ClassFile.Annotation
import NativeGlue.ClassFile.Attribute
import NativeGlue.ClassFile.Basic
import NativeGlue.ClassFile.ConstantPool
import NativeGlue.ClassFile.Cursor
import NativeGlue.ClassFile.Error
import NativeGlue.ClassFile.Writer
import NativeGlue.ClassName
import NativeGlue.Code.Document
import NativeGlue.Code.Identifier
import NativeGlue.Code.Literal
import NativeGlue.CommandLine.Arguments
import NativeGlue.CommandLine.Grammar
import NativeGlue.CommandLine.Run
import NativeGlue.Config.Basic
import NativeGlue.Config.Marker
import NativeGlue.Config.Read
import NativeGlue.Descriptor.Basic
import NativeGlue.Descriptor.Parser
import NativeGlue.Hash.Fingerprint
import NativeGlue.Hash.Xxh64
import NativeGlue.Main
import NativeGlue.Mapping.Basic
import NativeGlue.Mapping.Primitive
import NativeGlue.Plan.Basic
import NativeGlue.Plan.Output
import NativeGlue.Plan.Report
import NativeGlue.Primitive
import NativeGlue.Scan.Basic
import NativeGlue.Scan.Classpath
import NativeGlue.Scan.Error
import NativeGlue.Scan.Index
import NativeGlue.Scan.Metadata
import NativeGlue.Scan.Select
import NativeGlue.Storage.Basic
import NativeGlue.Storage.Path
import NativeGlue.Stub.Audit
import NativeGlue.Stub.Basic
import NativeGlue.Stub.Implementation
import NativeGlue.Stub.Lowering
import NativeGlue.Stub.Render
import NativeGlue.Stub.Unit
import NativeGlue.Symbol.Mangling
import NativeGlue.Symbol.Naming
import NativeGlue.Symbol.Overload
import NativeGlue.Symbol.Registry
import NativeGlue.Symbol.Signature
import NativeGlue.Table.Basic
import NativeGlue.Table.Registration
import NativeGlue.Table.RuntimeHeader
import NativeGlue.Text.Basic
import NativeGlue.Text.Digits
import NativeGlue.Text.Json
import NativeGlue.Text.ModifiedUtf8
import NativeGlue.Text.Utf16
import NativeGlue.Toml.Document
import NativeGlue.Toml.Quoted
import NativeGlue.Toml.Scalar
import NativeGlue.Toml.Value
import NativeGlue.Proofs.Stub.Escape
import NativeGlue.Proofs.Stub.ReleaseOrder
import NativeGlue.Proofs.Stub.Exactness
import NativeGlue.Proofs.Plan.Balance
import NativeGlue.Proofs.Descriptor.Canonical
import NativeGlue.Proofs.Descriptor.RoundTrip
import NativeGlue.Proofs.Plan.Collisions
import NativeGlue.Proofs.Plan.Accounting
import NativeGlue.Proofs.Plan.Independence
import NativeGlue.Proofs.ClassFile.Reading
import NativeGlue.Proofs.ClassFile.Truncation
import NativeGlue.Proofs.Text.ModifiedUtf8
import NativeGlue.Proofs.ClassFile.Interning
import NativeGlue.Proofs.ClassFile.Writing
import NativeGlue.Proofs.ClassFile.Description
import NativeGlue.Proofs.ClassFile.WrittenAnnotations
import NativeGlue.Proofs.ClassFile.WrittenAttributes
import NativeGlue.Proofs.ClassFile.RoundTrip
import NativeGlue.Proofs.Storage.Directory
import NativeGlue.Proofs.Storage.Listing
import NativeGlue.Proofs.Storage.Making
import NativeGlue.Proofs.Plan.Storing
import NativeGlue.Proofs.Plan.Mirror
import NativeGlue.Proofs.Plan.FileNames
import NativeGlue.Proofs.Symbol.Registry
import NativeGlue.Proofs.Plan.Strictness
import NativeGlue.Proofs.Plan.Functions
import NativeGlue.Proofs.Scan.Index
import NativeGlue.Proofs.Scan.Selection
import NativeGlue.Proofs.Hash.Chain
import NativeGlue.Proofs.Table.Stamp
import NativeGlue.Proofs.Code.Identifier
import NativeGlue.Proofs.Stub.Implementation
import NativeGlue.Proofs.Stub.Prototypes
import NativeGlue.Proofs.Symbol.Ranking
import NativeGlue.Proofs.Scan.SuperTypes
import NativeGlue.Proofs.Stub.Statements
import NativeGlue.Proofs.Stub.Guards
import NativeGlue.Proofs.Stub.NullChecks
import NativeGlue.Proofs.Stub.NullHandling
import NativeGlue.Proofs.Code.Literal
import NativeGlue.Proofs.ClassFile.Forms
import NativeGlue.Proofs.ClassFile.PoolLayout
import NativeGlue.Proofs.ClassFile.AnnotationLayout
import NativeGlue.Proofs.Scan.Inheritance
import NativeGlue.Proofs.Text.ByteGroups
import NativeGlue.Proofs.Descriptor.Faults
import NativeGlue.Proofs.ClassFile.Placement
import NativeGlue.Proofs.ClassFile.AttributeTable
import NativeGlue.Proofs.ClassFile.Windows
import NativeGlue.Proofs.Code.Blocks
import NativeGlue.Proofs.Stub.Layout
import NativeGlue.Proofs.Code.Namespace
import NativeGlue.Proofs.Stub.Names
import NativeGlue.Proofs.Code.Rows
import NativeGlue.Proofs.Table.Groups
import NativeGlue.Proofs.Table.Registration
import NativeGlue.Proofs.Plan.Registration
import NativeGlue.Proofs.Ascending
import NativeGlue.Proofs.Binding
