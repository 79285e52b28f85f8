import NativeGlue.Proofs.ClassFile.WrittenAttributes

/-!
# Written classes are read

A class that the format can hold is written as a file that is accepted, and
what is read is the class file that it describes.
-/

namespace NativeGlue

open NativeGlue.Parser Writer

namespace MethodSpec

open Attribute

/-- The attributes that are read for a method. -/
def attributes (m : MethodSpec) : List Attribute :=
  describedAttribute true m.annotations
    ++ describedAttribute false m.annotations
    ++ describedParameterAttribute true m.parameterAnnotations
    ++ describedParameterAttribute false m.parameterAnnotations

theorem length_attributes_le (m : MethodSpec) :
    m.attributes.length ≤ 65535 := by
  have own (visible : Bool) :
      (describedAttribute visible m.annotations).length ≤ 1 :=
    length_ite_nil_le _
  have ofParameters (visible : Bool) : (describedParameterAttribute visible
      m.parameterAnnotations).length ≤ 1 :=
    length_ite_nil_le _
  have shown := own true
  have hidden := own false
  have shownOfParameters := ofParameters true
  have hiddenOfParameters := ofParameters false
  simp only [attributes, List.length_append]
  omega

theorem allAnnotations_attributes (m : MethodSpec) :
    allAnnotations m.attributes = describedAnnotations m.annotations := by
  simp [allAnnotations, attributes, describedAnnotations]

theorem allParameters_attributes (m : MethodSpec) :
    allParameters m.attributes =
      describedParameters m.parameterAnnotations := by
  simp only [allParameters, attributes, List.map_append, List.foldl_append,
    foldl_merge_described, foldl_merge_parameters]
  exact merge_parameterGroups m.parameterAnnotations

/-- A method within the limits is read. -/
theorem readAs_write {m : MethodSpec} (limits : m.WithinLimits) :
    ReadAs m.write ClassFile.readMethod m.described := by
  have shown := readAs_annotationAttribute limits.annotations
  have parameters := readAs_parameterAttribute limits.parameters
  have attributes : ReadAsAttributes _ m.attributes :=
    List.rel_append (List.rel_append (List.rel_append (shown true)
      (shown false)) (parameters true)) (parameters false)
  refine (ReadAs.u2 m.access.bits.toNat).bind ?_
  refine (ReadAs.index (.text limits.name)).bind ?_
  refine (ReadAs.index (.text limits.descriptor)).bind ?_
  refine (ReadAs.counted attributes m.length_attributes_le).bind ?_
  rw [allAnnotations_attributes, allParameters_attributes,
    UInt16.ofNat_toNat]
  exact ReadAs.nothing _

end MethodSpec

namespace ClassFile

/-- Reads what follows the version and the pool. -/
def readBody (version : UInt16 × UInt16) (pool : ConstantPool) :
    Parser ClassFile := do
  let access ← Parser.u2
  let name ← lookup pool.className
  let superclass ← lookup pool.className?
  let interfaceCount ← Parser.u2
  let interfaces ← times (lookup pool.className) interfaceCount.toNat
  let fieldCount ← Parser.u2
  let _ ← times (skipField pool) fieldCount.toNat
  let methodCount ← Parser.u2
  let methods ← times (readMethod pool) methodCount.toNat
  let attributes ← Attribute.readAll pool
  return {
    minorVersion := version.1
    majorVersion := version.2
    access := ⟨access⟩
    name
    superclass
    interfaces
    methods
    annotations := Attribute.allAnnotations attributes
    sourceFile := Attribute.lastSourceFile? attributes }

theorem read_eq :
    read = (readVersion >>= fun version =>
      ConstantPool.read >>= readBody version) :=
  rfl

theorem isSupported_of_between {major : UInt16}
    (between : 45 ≤ major.toNat ∧ major.toNat ≤ 69) :
    isSupported major = true := by
  rw [isSupported, Bool.and_eq_true, decide_eq_true_iff, decide_eq_true_iff]
  exact between

theorem reads_readVersion {minor major : UInt16} {offset : Nat}
    (supported : isSupported major = true) :
    Reads readVersion offset
      (Bytes.u4 magic.toNat ++ (Bytes.u2 minor.toNat ++ Bytes.u2 major.toNat))
      (minor, major) := by
  refine (reads_u4 magic.toNat).bind ?_
  rw [UInt32.ofNat_toNat, if_neg (not_not_intro rfl)]
  refine (reads_u2 minor.toNat).bind ?_
  intro rest
  rw [bind_eq_of_ok (reads_u2 major.toNat rest), UInt16.ofNat_toNat,
    UInt16.ofNat_toNat, if_pos supported]
  rfl

theorem parse_of_reads {input : List UInt8} {file : ClassFile}
    (reads : Reads read 0 input file) : parse input = .ok file := by
  have all := reads []
  rw [List.append_nil] at all
  rw [parse, Cursor.ofBytes, all]
  rfl

end ClassFile

namespace ClassSpec

open Attribute

/-- The attributes that are read for a class. -/
def attributes (c : ClassSpec) : List Attribute :=
  describedAttribute true c.annotations
    ++ describedAttribute false c.annotations
    ++ c.sourceFile.toList.map .sourceFile

theorem length_attributes_le (c : ClassSpec) :
    c.attributes.length ≤ 65535 := by
  have own (visible : Bool) :
      (describedAttribute visible c.annotations).length ≤ 1 :=
    length_ite_nil_le _
  have shown := own true
  have hidden := own false
  have source : c.sourceFile.toList.length ≤ 1 := Option.length_toList_le
  simp only [attributes, List.length_append, List.length_map]
  omega

theorem allAnnotations_attributes (c : ClassSpec) :
    allAnnotations c.attributes = describedAnnotations c.annotations := by
  have empty (wanted : Bool) : (c.sourceFile.toList.map
      Attribute.sourceFile).flatMap (annotationsOf wanted) = [] := by
    cases c.sourceFile <;> rfl
  simp [allAnnotations, attributes, empty, describedAnnotations]

theorem lastSourceFile?_attributes (c : ClassSpec) :
    lastSourceFile? c.attributes = c.sourceFile := by
  cases given : c.sourceFile <;>
    simp [lastSourceFile?, attributes, given, sourceFileOf]

/-- The superclass is read, or that there is none. -/
theorem readAs_writeSuperclass {superclass : Option String}
    (fit : ∀ name ∈ superclass.toList, TextFits name) :
    ReadAs (writeSuperclass superclass)
      (fun pool => lookup pool.className?) (superclass.map ClassName.mk) := by
  cases superclass with
  | none =>
      refine ⟨keeps_pure _, fun p final _ offset rest => ?_⟩
      rw [lookup]
      exact bind_eq_of_ok (reads_u2 0 rest)
  | some name =>
      exact ReadAs.index (.className? (fit name List.mem_cons_self))

/-- What follows the pool is read. -/
theorem readAs_writeBody {c : ClassSpec} (limits : c.WithinLimits) :
    ReadAs c.writeBody
      (ClassFile.readBody (c.minorVersion, c.majorVersion)) c.described := by
  have texts := limits.texts
  rw [ClassSpec.texts, List.forall_mem_cons, List.forall_mem_append,
    List.forall_mem_append] at texts
  obtain ⟨name, ⟨superclass, interfaces⟩, source⟩ := texts
  have shown := readAs_annotationAttribute limits.annotations
  have attributes : ReadAsAttributes _ c.attributes :=
    List.rel_append (List.rel_append (shown true) (shown false))
      (readAs_sourceAttribute source)
  have methods : List.Forall₂ (fun w x => ReadAs w ClassFile.readMethod x)
      (c.methods.map MethodSpec.write) (c.methods.map MethodSpec.described) :=
    ReadAs.each_map fun m member =>
      MethodSpec.readAs_write (limits.eachMethod m member)
  refine (ReadAs.u2 c.access.bits.toNat).bind ?_
  refine (ReadAs.index (.className name)).bind ?_
  refine (readAs_writeSuperclass superclass).bind ?_
  refine ReadAs.counted_bind (ReadAs.each_map fun n member =>
    ReadAs.index (.className (interfaces n member))) ?_ ?_
  · rw [List.length_map]
    exact limits.interfaces
  refine ReadAs.counted_bind .nil (Nat.zero_le _) ?_
  refine ReadAs.counted_bind methods ?_ ?_
  · rw [List.length_map]
    exact limits.methods
  refine (ReadAs.counted attributes c.length_attributes_le).bind ?_
  rw [allAnnotations_attributes, lastSourceFile?_attributes,
    UInt16.ofNat_toNat]
  exact ReadAs.nothing _

theorem toBytes_eq (c : ClassSpec) :
    c.toBytes =
      (Bytes.u4 ClassFile.magic.toNat ++ (Bytes.u2 c.minorVersion.toNat
        ++ Bytes.u2 c.majorVersion.toNat))
      ++ (c.pool.bytes ++ (c.writeBody .empty).1) := by
  rw [← List.append_assoc, ← List.append_assoc]
  rfl

/-- The bytes of a class within the limits are read as what it describes. -/
theorem reads_toBytes {c : ClassSpec} (limits : c.WithinLimits) :
    Reads ClassFile.read 0 c.toBytes c.described := by
  have body := readAs_writeBody limits
  have fits : c.pool.Fits :=
    body.keeps.fits .empty (List.forall_mem_nil _)
  rw [toBytes_eq, ClassFile.read_eq]
  -- the pool in front of the body is the one that the body leaves behind
  refine (ClassFile.reads_readVersion
    (ClassFile.isSupported_of_between limits.version)).bind ?_
  refine (PoolBuilder.reads_toPool fits limits.constants).bind ?_
  exact body.reads .empty c.pool ⟨le_rfl, limits.constants⟩ _

/-- A class that the format can hold is read back as it is described. -/
theorem parse_toBytes {c : ClassSpec} (limits : c.WithinLimits) :
    ClassFile.parse c.toBytes = .ok c.described :=
  ClassFile.parse_of_reads (reads_toBytes limits)

/-- A class with annotations of both visibilities, also inside one another. -/
def annotated : ClassSpec where
  name := "Gate"
  majorVersion := 52
  superclass := none
  interfaces := ["Door"]
  methods := [{
    access := ⟨0x0100⟩
    name := "open"
    descriptor := "(II)V"
    annotations := [⟨"LHidden;", false, []⟩, ⟨"LShown;", true, []⟩]
    parameterAnnotations :=
      [(1, ⟨"LHidden;", false, []⟩), (1, ⟨"LShown;", true, []⟩)] }]
  annotations := [⟨"LHidden;", false,
    [("in", .nested "LShown;" true [("on", .boolean true)]),
      ("of", .classes ["Door"])]⟩]
  sourceFile := some "Gate.java"

theorem parse_toBytes_annotated :
    annotated.WithinLimits ∧ ClassFile.parse annotated.toBytes = .ok {
      minorVersion := 0
      majorVersion := 52
      access := ⟨0x0021⟩
      name := ⟨"Gate"⟩
      superclass := none
      interfaces := [⟨"Door"⟩]
      methods := [{
        access := ⟨0x0100⟩
        name := "open"
        descriptor := "(II)V"
        annotations := [⟨"LShown;", [], true⟩, ⟨"LHidden;", [], false⟩]
        parameterAnnotations :=
          [[], [⟨"LShown;", [], true⟩, ⟨"LHidden;", [], false⟩]] }]
      annotations := [⟨"LHidden;",
        [("in", .nested "LShown;" [("on", .boolean true)] false),
          ("of", .array [.classLiteral "LDoor;"])], false⟩]
      sourceFile := some "Gate.java" } := by
  have limits : annotated.WithinLimits := by decide
  exact ⟨limits, parse_toBytes limits⟩

end ClassSpec

end NativeGlue
