import NativeGlue.Proofs.ClassFile.AnnotationLayout
import NativeGlue.Proofs.ClassFile.Placement
import NativeGlue.Proofs.ClassFile.WrittenAttributes

/-!
# What a table of attributes says

**Input.** A constant pool, and a table of attributes whose names stand in the
pool: their number, and each one with the index of its name and its declared
length in front of its body. Names may repeat, and a body is arbitrary.

Five names are read. Only the attributes with these names decide whether the
table is read, and what it says: the visible annotations and behind them the
others, the lists of annotations parameter by parameter, and the last source
file. Each of these bodies must be read to its end. Whatever bytes are read as
a list of attributes are those of such a table: `exists_table_of_readAll`.

Main statement: `readAll_table`.
-/

namespace NativeGlue

open NativeGlue.Parser

namespace Parser

variable {α : Type} {c c' : Cursor}

/-- Something is looked up at the index that stands in front. -/
theorem exists_of_lookup {get : Nat → Except FormatError α} {x : α}
    (read : lookup get c = .ok (x, c')) :
    ∃ index : UInt16, get index.toNat = .ok x ∧
      c.rest = Bytes.ofNumber 2 index.toNat ++ c'.rest := by
  obtain ⟨index, behind, indexed, got⟩ := bind_eq_ok_iff.mp read
  obtain ⟨used, rfl, front, -⟩ := accepts_u2.sound c index behind indexed
  cases stands : get index.toNat with
  | ok y =>
      rw [stands] at got
      cases got
      exact ⟨index, stands, front⟩
  | error e =>
      rw [stands] at got
      cases got

theorem exists_of_window {n : Nat} {w : Cursor}
    (read : window n c = .ok (w, c')) :
    w.rest.length = n ∧ c.rest = w.rest ++ c'.rest := by
  obtain ⟨start, same, here, taken⟩ := bind_eq_ok_iff.mp read
  cases here
  obtain ⟨body, behind, split, made⟩ := bind_eq_ok_iff.mp taken
  cases made
  obtain ⟨used, ⟨rfl, size⟩, front, -⟩ := (accepts_bytes n).sound _ _ _ split
  exact ⟨size, front⟩

end Parser

/-- An attribute by its name and the bytes that its length declares. -/
structure NamedBody where
  name : String
  body : List UInt8

/-- An attribute in a table, with the index at which its name stands. -/
structure AttributeEntry (pool : ConstantPool) extends NamedBody where
  index : UInt16
  named : pool.text index.toNat = .ok name
  fits : body.length < 2 ^ 32

/-- Attributes that can be counted. -/
structure AttributeTable (pool : ConstantPool) where
  entries : List (AttributeEntry pool)
  few : entries.length < 65536

namespace NamedBody

open Annotation

/-- The names of the attributes that are read. -/
def readNames : List String :=
  ["RuntimeVisibleAnnotations", "RuntimeInvisibleAnnotations",
    "RuntimeVisibleParameterAnnotations",
    "RuntimeInvisibleParameterAnnotations", "SourceFile"]

/-- What a parser makes of the front of the body, if it does not fail. -/
def value? {α : Type} (p : Parser α) (a : NamedBody) : Option α :=
  match p ⟨0, a.body⟩ with
  | .ok (x, _) => some x
  | .error _ => none

variable (pool : ConstantPool)

/-- The annotations of one visibility in an attribute. -/
def annotations (visible : Bool) (a : NamedBody) : List Annotation :=
  if a.name = (AttributeKind.annotations visible).name then
    (a.value? (readAll pool visible)).getD []
  else []

/-- The lists of annotations of parameters in an attribute. -/
def parameters (a : NamedBody) : List (List Annotation) :=
  if a.name = (AttributeKind.parameterAnnotations true).name then
    (a.value? (readParameters pool true)).getD []
  else if a.name = (AttributeKind.parameterAnnotations false).name then
    (a.value? (readParameters pool false)).getD []
  else []

/-- The annotations of one parameter in an attribute. -/
def parameter (i : Nat) (a : NamedBody) : List Annotation :=
  (a.parameters pool)[i]?.getD []

/-- The name of a source file in an attribute. -/
def sourceFile? (a : NamedBody) : Option String :=
  if a.name = AttributeKind.sourceFile.name then
    a.value? (lookup pool.text)
  else none

/-- A body that has one of the five names is read to its end. -/
def IsWhole (a : NamedBody) : Prop :=
  ∀ kind : AttributeKind, a.name = kind.name →
    ∃ found c, kind.readBody pool ⟨0, a.body⟩ = .ok (found, c) ∧ c.rest = []

/-- What an attribute is read as: its whole contents, or nothing. -/
inductive Holds (a : NamedBody) : Attribute → Prop
  | contents {kind : AttributeKind} {found : Attribute} {c : Cursor}
      (named : a.name = kind.name)
      (read : kind.readBody pool ⟨0, a.body⟩ = .ok (found, c))
      (ends : c.rest = []) : Holds a found
  | other (unread : AttributeKind.ofName? a.name = none) : Holds a .other

end NamedBody

namespace AttributeEntry

variable {pool : ConstantPool}

/-- The bytes of an attribute in a table. -/
def bytes (e : AttributeEntry pool) : List UInt8 :=
  Bytes.ofNumber 2 e.index.toNat ++
    (Bytes.ofNumber 4 e.body.length ++ e.body)

end AttributeEntry

namespace AttributeTable

variable {pool : ConstantPool}

/-- The bytes of a table. -/
def bytes (t : AttributeTable pool) : List UInt8 :=
  Bytes.ofNumber 2 t.entries.length ++ t.entries.flatMap AttributeEntry.bytes

/-- The attributes that are read, in file order. -/
def chosen (t : AttributeTable pool) : List NamedBody :=
  (t.entries.map AttributeEntry.toNamedBody).filter fun a =>
    a.name ∈ NamedBody.readNames

/-- All visible annotations in file order, and behind them all others. -/
def annotations (t : AttributeTable pool) : List Annotation :=
  t.chosen.flatMap (NamedBody.annotations pool true) ++
    t.chosen.flatMap (NamedBody.annotations pool false)

/-- The annotations of each parameter in file order, up to the longest list. -/
def parameters (t : AttributeTable pool) : List (List Annotation) :=
  let lengths := t.chosen.map fun a => (a.parameters pool).length
  (List.range (lengths.max?.getD 0)).map fun i =>
    t.chosen.flatMap (NamedBody.parameter pool i)

/-- The source file that is named last. -/
def sourceFile? (t : AttributeTable pool) : Option String :=
  (t.chosen.filterMap (NamedBody.sourceFile? pool)).getLast?

end AttributeTable

namespace AttributeKind

variable {kind kind' : AttributeKind} {s : String}

theorem ofName?_eq_some_iff : ofName? s = some kind ↔ s = kind.name := by
  constructor
  · intro found
    have same := List.find?_some found
    exact (of_decide_eq_true same).symm
  · rintro rfl
    exact ofName?_name kind

theorem name_inj : kind.name = kind'.name ↔ kind = kind' := by
  rw [← ofName?_eq_some_iff, ofName?_name, Option.some_inj]

theorem mem_readNames_iff :
    s ∈ NamedBody.readNames ↔ ∃ kind : AttributeKind, s = kind.name := by
  constructor
  · intro member
    have named : NamedBody.readNames = all.map name := rfl
    rw [named, List.mem_map] at member
    obtain ⟨kind, -, rfl⟩ := member
    exact ⟨kind, rfl⟩
  · rintro ⟨kind, rfl⟩
    cases kind with
    | annotations visible | parameterAnnotations visible =>
        cases visible <;> decide
    | sourceFile => decide

theorem ofName?_eq_none_iff :
    ofName? s = none ↔ s ∉ NamedBody.readNames := by
  rw [mem_readNames_iff, Option.eq_none_iff_forall_ne_some, not_exists]
  exact forall_congr' fun kind => not_congr ofName?_eq_some_iff

end AttributeKind

namespace NamedBody

open Annotation

variable {pool : ConstantPool} {a : NamedBody} {found : Attribute}

theorem value?_of_ok {α : Type} {p : Parser α} {x : α} {c : Cursor}
    (read : p ⟨0, a.body⟩ = .ok (x, c)) : a.value? p = some x := by
  rw [value?, read]

theorem ne_of_unread (unread : a.name ∉ readNames) (kind : AttributeKind) :
    a.name ≠ kind.name :=
  fun named => unread (AttributeKind.mem_readNames_iff.mpr ⟨kind, named⟩)

theorem isWhole_of_unread (unread : a.name ∉ readNames) : a.IsWhole pool :=
  fun kind named => absurd named (ne_of_unread unread kind)

/-- An attribute is whole exactly if it is read as something. -/
theorem IsWhole.exists_holds (whole : a.IsWhole pool) :
    ∃ found, a.Holds pool found := by
  cases which : AttributeKind.ofName? a.name with
  | none =>
      exact ⟨.other, .other which⟩
  | some kind =>
      have named := AttributeKind.ofName?_eq_some_iff.mp which
      obtain ⟨found, c, read, ends⟩ := whole kind named
      exact ⟨found, .contents named read ends⟩

theorem annotations_of_unread (unread : a.name ∉ readNames) (visible : Bool) :
    a.annotations pool visible = [] := by
  rw [annotations, if_neg (ne_of_unread unread _)]

theorem parameters_of_unread (unread : a.name ∉ readNames) :
    a.parameters pool = [] := by
  rw [parameters, if_neg (ne_of_unread unread _),
    if_neg (ne_of_unread unread _)]

theorem sourceFile?_of_unread (unread : a.name ∉ readNames) :
    a.sourceFile? pool = none := by
  rw [sourceFile?, if_neg (ne_of_unread unread _)]

/-- By its name, an attribute is one of four things. -/
theorem Holds.cases_name (holds : a.Holds pool found) :
    (a.name ∉ readNames ∧ found = .other) ∨
    (∃ visible list, a.name = (AttributeKind.annotations visible).name ∧
      a.value? (readAll pool visible) = some list ∧
      found = .annotations visible list) ∨
    (∃ visible lists,
      a.name = (AttributeKind.parameterAnnotations visible).name ∧
      a.value? (readParameters pool visible) = some lists ∧
      found = .parameterAnnotations lists) ∨
    ∃ file, a.name = AttributeKind.sourceFile.name ∧
      a.value? (lookup pool.text) = some file ∧ found = .sourceFile file := by
  cases holds with
  | other unread =>
      exact .inl ⟨AttributeKind.ofName?_eq_none_iff.mp unread, rfl⟩
  | contents named read ends =>
      rename_i kind c
      cases kind with
      | annotations visible =>
          obtain ⟨list, c', here, made⟩ := bind_eq_ok_iff.mp read
          cases made
          exact .inr (.inl ⟨visible, list, named, value?_of_ok here, rfl⟩)
      | parameterAnnotations visible =>
          obtain ⟨lists, c', here, made⟩ := bind_eq_ok_iff.mp read
          cases made
          exact .inr (.inr (.inl
            ⟨visible, lists, named, value?_of_ok here, rfl⟩))
      | sourceFile =>
          obtain ⟨file, c', here, made⟩ := bind_eq_ok_iff.mp read
          cases made
          exact .inr (.inr (.inr ⟨file, named, value?_of_ok here, rfl⟩))

/-- The annotations that are read are those of the body. -/
theorem Holds.annotationsOf_eq (holds : a.Holds pool found) (visible : Bool) :
    Attribute.annotationsOf visible found = a.annotations pool visible := by
  rcases holds.cases_name with ⟨unread, rfl⟩ |
    ⟨shown, list, named, value, rfl⟩ | ⟨shown, lists, named, value, rfl⟩ |
    ⟨file, named, value, rfl⟩
  · exact (annotations_of_unread unread visible).symm
  · simp only [annotations, named, AttributeKind.name_inj,
      AttributeKind.annotations.injEq, Attribute.annotationsOf]
    split
    · rename_i same
      rw [← same, value, Option.getD_some]
    · rfl
  · simp only [annotations, named, AttributeKind.name_inj, reduceCtorEq,
      if_false, Attribute.annotationsOf]
  · simp only [annotations, named, AttributeKind.name_inj, reduceCtorEq,
      if_false, Attribute.annotationsOf]

/-- The lists of parameters that are read are those of the body. -/
theorem Holds.parametersOf_eq (holds : a.Holds pool found) :
    Attribute.parametersOf found = a.parameters pool := by
  rcases holds.cases_name with ⟨unread, rfl⟩ |
    ⟨shown, list, named, value, rfl⟩ | ⟨shown, lists, named, value, rfl⟩ |
    ⟨file, named, value, rfl⟩
  · exact (parameters_of_unread unread).symm
  · simp only [parameters, named, AttributeKind.name_inj, reduceCtorEq,
      if_false, Attribute.parametersOf]
  · cases shown <;>
      simp [parameters, named, AttributeKind.name_inj, value,
        Attribute.parametersOf]
  · simp only [parameters, named, AttributeKind.name_inj, reduceCtorEq,
      if_false, Attribute.parametersOf]

/-- The source file that is read is that of the body. -/
theorem Holds.sourceFileOf_eq (holds : a.Holds pool found) :
    Attribute.sourceFileOf found = a.sourceFile? pool := by
  rcases holds.cases_name with ⟨unread, rfl⟩ |
    ⟨shown, list, named, value, rfl⟩ | ⟨shown, lists, named, value, rfl⟩ |
    ⟨file, named, value, rfl⟩
  · exact (sourceFile?_of_unread unread).symm
  · simp only [sourceFile?, named, AttributeKind.name_inj, reduceCtorEq,
      if_false, Attribute.sourceFileOf]
  · simp only [sourceFile?, named, AttributeKind.name_inj, reduceCtorEq,
      if_false, Attribute.sourceFileOf]
  · simp only [sourceFile?, named, if_true, value, Attribute.sourceFileOf]

end NamedBody

/-- A window is read with a fault, to its end, or only in part. -/
theorem Attribute.readWhole_cases (name : String) (declared : Nat) (w : Cursor)
    (p : Parser Attribute) :
    (∃ e, p w = .error e ∧ readWhole name declared w p = fail e) ∨
    (∃ x c, p w = .ok (x, c) ∧ c.rest = [] ∧
      readWhole name declared w p = pure x) ∨
    ∃ x c, p w = .ok (x, c) ∧ c.rest ≠ [] ∧
      readWhole name declared w p =
        fail (.attributeLength name declared (declared - c.rest.length)) := by
  rw [readWhole]
  split
  · rename_i e failed
    exact .inl ⟨e, failed, rfl⟩
  · rename_i x c read
    split
    · rename_i atEnd
      exact .inr (.inl ⟨x, c, read, List.isEmpty_iff.mp atEnd, rfl⟩)
    · rename_i left
      exact .inr (.inr ⟨x, c, read, left ∘ List.isEmpty_iff.mpr, rfl⟩)

namespace AttributeEntry

open Attribute

variable {pool : ConstantPool} (e : AttributeEntry pool) {offset : Nat}
  {found : Attribute} {front back : List (AttributeEntry pool)}

/-- Behind its head, an attribute is its body, in a window of its own. -/
theorem read_bytes (offset : Nat) (rest : List UInt8) :
    Attribute.read pool ⟨offset, e.bytes ++ rest⟩ =
      (match AttributeKind.ofName? e.name with
        | some kind =>
            readWhole e.name e.body.length ⟨offset + 6, e.body⟩
              (kind.readBody pool)
        | none => pure .other) ⟨offset + e.bytes.length, rest⟩ := by
  have declared : (UInt32.ofNat e.body.length).toNat = e.body.length := by
    rw [UInt32.toNat_ofNat', Nat.mod_eq_of_lt e.fits]
  have length := accepts_u4.complete (offset + 2) _
    (UInt32.ofNat e.body.length) rfl
  have start : offset + 2 + 4 = offset + 6 := rfl
  have stop : offset + 6 + e.body.length = offset + e.bytes.length := by
    simp only [bytes, List.length_append, Bytes.length_ofNumber]
    omega
  rw [declared] at length
  rw [Attribute.read, bytes, List.append_assoc,
    bind_eq_of_ok (reads_lookup e.named _), Bytes.length_ofNumber,
    List.append_assoc, bind_eq_of_ok (length _), Bytes.length_ofNumber,
    declared, bind_eq_of_ok (reads_window e.body rest), start, stop]
  rfl

/-- An attribute that is read is whole. -/
theorem whole_of_read {rest : List UInt8} {r : Attribute × Cursor}
    (read : Attribute.read pool ⟨offset, e.bytes ++ rest⟩ = .ok r) :
    e.IsWhole pool := by
  intro kind named
  rw [e.read_bytes, named, kind.ofName?_name] at read
  dsimp only at read
  rcases readWhole_cases kind.name e.body.length ⟨offset + 6, e.body⟩
      (kind.readBody pool) with
    ⟨fault, -, made⟩ | ⟨x, c, inside, ends, -⟩ | ⟨x, c, -, -, made⟩
  · rw [made] at read
    cases read
  · obtain ⟨used, -, here⟩ := (kind.alike_readBody pool).ok_at inside 0
    exact ⟨x, _, here, ends⟩
  · rw [made] at read
    cases read

/-- An attribute is read as what its body holds. -/
theorem reads_of_holds (holds : e.Holds pool found) (offset : Nat) :
    Reads (Attribute.read pool) offset e.bytes found := by
  intro rest
  rw [e.read_bytes]
  cases holds with
  | other unread =>
      rw [unread]
      rfl
  | contents named read ends =>
      rename_i kind c
      obtain ⟨used, -, there⟩ :=
        (kind.alike_readBody pool).ok_at read (offset + 6)
      rw [named, kind.ofName?_name]
      dsimp only
      rw [readWhole, there, ends]
      rfl

/-- An attribute that is longer than what it holds is refused. -/
theorem read_of_rest {kind : AttributeKind} {c : Cursor}
    (named : e.name = kind.name)
    (read : kind.readBody pool ⟨0, e.body⟩ = .ok (found, c))
    (left : c.rest ≠ []) (offset : Nat) :
    ∃ used, e.body = used ++ c.rest ∧
      ∀ rest, Attribute.read pool ⟨offset, e.bytes ++ rest⟩ =
        .error (.attributeLength e.name e.body.length used.length) := by
  obtain ⟨used, split, there⟩ :=
    (kind.alike_readBody pool).ok_at read (offset + 6)
  have remaining : e.body.length - c.rest.length = used.length := by
    rw [split, List.length_append, Nat.add_sub_cancel_right]
  have longer : c.rest.isEmpty = false := List.isEmpty_eq_false_iff.mpr left
  refine ⟨used, split, fun rest => ?_⟩
  rw [e.read_bytes, named, kind.ofName?_name]
  dsimp only
  rw [readWhole, there]
  simp only [Cursor.isAtEnd, longer, Bool.false_eq_true, if_false,
    Cursor.remaining, remaining]
  rfl

/-- What stands behind an attribute plays no part in how it is read. -/
theorem read_windowed (offset : Nat) :
    (∃ fault, ∀ rest,
      Attribute.read pool ⟨offset, e.bytes ++ rest⟩ = .error fault) ∨
    ∃ found, Reads (Attribute.read pool) offset e.bytes found := by
  simp only [Reads, e.read_bytes]
  cases AttributeKind.ofName? e.name with
  | none =>
      exact .inr ⟨.other, fun rest => rfl⟩
  | some kind =>
      dsimp only
      rcases readWhole_cases e.name e.body.length ⟨offset + 6, e.body⟩
          (kind.readBody pool) with
        ⟨fault, -, made⟩ | ⟨x, c, -, -, made⟩ | ⟨x, c, -, -, made⟩
      · rw [made]
        exact .inl ⟨fault, fun rest => rfl⟩
      · rw [made]
        exact .inr ⟨x, fun rest => rfl⟩
      · rw [made]
        exact .inl ⟨_, fun rest => rfl⟩

/-- What is read as an attribute stands there as one of a table. -/
theorem exists_entry_of_read {c c' : Cursor}
    (read : Attribute.read pool c = .ok (found, c')) :
    ∃ e : AttributeEntry pool, c.rest = e.bytes ++ c'.rest ∧
      e.Holds pool found := by
  obtain ⟨name, c₁, looked, others⟩ := bind_eq_ok_iff.mp read
  obtain ⟨declared, c₂, sized, others⟩ := bind_eq_ok_iff.mp others
  obtain ⟨w, c₃, cut, -⟩ := bind_eq_ok_iff.mp others
  obtain ⟨index, named, first⟩ := exists_of_lookup looked
  obtain ⟨used, rfl, second, -⟩ := accepts_u4.sound _ _ _ sized
  obtain ⟨size, third⟩ := exists_of_window cut
  have fits : w.rest.length < 2 ^ 32 := by
    rw [size]
    exact declared.toNat_lt
  let e : AttributeEntry pool := ⟨⟨name, w.rest⟩, index, named, fits⟩
  have bytes_e : c.rest = e.bytes ++ c₃.rest := by
    rw [first, second, third, bytes, ← size, List.append_assoc,
      List.append_assoc]
  -- a read of these bytes is known to be what they hold
  have again : Attribute.read pool ⟨c.offset, e.bytes ++ c₃.rest⟩ =
      .ok (found, c') := by
    rw [← bytes_e]
    exact read
  obtain ⟨x, holds⟩ := (e.whole_of_read again).exists_holds
  rw [e.reads_of_holds holds] at again
  cases again
  exact ⟨e, bytes_e, holds⟩

theorem whole_of_times {es : List (AttributeEntry pool)} {rest : List UInt8}
    {r : List Attribute × Cursor}
    (read : times (Attribute.read pool) es.length
      ⟨offset, es.flatMap bytes ++ rest⟩ = .ok r) :
    ∀ e ∈ es, e.IsWhole pool := by
  induction es generalizing offset r with
  | nil => exact List.forall_mem_nil _
  | cons e es ih =>
      rw [List.flatMap_cons, List.append_assoc, List.length_cons, times] at read
      obtain ⟨first, c, here, there⟩ := bind_eq_ok_iff.mp read
      have whole := e.whole_of_read here
      obtain ⟨found, holds⟩ := whole.exists_holds
      rw [e.reads_of_holds holds offset] at here
      cases here
      obtain ⟨others, c', behind, -⟩ := bind_eq_ok_iff.mp there
      exact List.forall_mem_cons.mpr ⟨whole, ih behind⟩

/-- What is read as attributes stands there as attributes of a table. -/
theorem exists_entries_of_times {n : Nat} {c c' : Cursor}
    {all : List Attribute}
    (read : times (Attribute.read pool) n c = .ok (all, c')) :
    ∃ es : List (AttributeEntry pool), es.length = n ∧
      c.rest = es.flatMap bytes ++ c'.rest ∧
      List.Forall₂ (fun e x => e.Holds pool x) es all := by
  induction n generalizing c all with
  | zero =>
      cases read
      exact ⟨[], rfl, rfl, .nil⟩
  | succ n ih =>
      obtain ⟨x, c₁, here, there⟩ := bind_eq_ok_iff.mp read
      obtain ⟨xs, c₂, behind, made⟩ := bind_eq_ok_iff.mp there
      cases made
      obtain ⟨e, split, holds⟩ := exists_entry_of_read here
      obtain ⟨es, length, split', held⟩ := ih behind
      refine ⟨e :: es, congrArg Nat.succ length, ?_, .cons holds held⟩
      rw [split, split', List.flatMap_cons, List.append_assoc]

/-- Attributes that are whole are read, one after another. -/
theorem exists_reads_times {es : List (AttributeEntry pool)}
    (whole : ∀ e ∈ es, e.IsWhole pool) (offset : Nat) :
    ∃ found, List.Forall₂ (fun e x => e.Holds pool x) es found ∧
      Reads (times (Attribute.read pool) es.length) offset
        (es.flatMap bytes) found := by
  induction es generalizing offset with
  | nil => exact ⟨[], .nil, reads_pure []⟩
  | cons e es ih =>
      obtain ⟨first, others⟩ := List.forall_mem_cons.mp whole
      obtain ⟨x, holds⟩ := first.exists_holds
      obtain ⟨found, all, reads⟩ := ih others (offset + e.bytes.length)
      refine ⟨x :: found, .cons holds all, ?_⟩
      exact (e.reads_of_holds holds offset).bind (reads.map (x :: ·))

/-- Behind attributes that are whole, the first fault decides. -/
theorem times_of_fault {fault : FormatError}
    (whole : ∀ a ∈ front, a.IsWhole pool) (offset : Nat)
    (fails : ∀ rest, Attribute.read pool
      ⟨offset + (front.flatMap bytes).length, e.bytes ++ rest⟩ = .error fault)
    (rest : List UInt8) :
    times (Attribute.read pool) (front ++ e :: back).length
      ⟨offset, (front ++ e :: back).flatMap bytes ++ rest⟩ = .error fault := by
  induction front generalizing offset with
  | nil =>
      rw [List.nil_append, List.flatMap_cons, List.append_assoc]
      exact bind_eq_of_error (fails _)
  | cons a front ih =>
      obtain ⟨first, others⟩ := List.forall_mem_cons.mp whole
      obtain ⟨x, holds⟩ := first.exists_holds
      rw [List.flatMap_cons, List.length_append, ← Nat.add_assoc] at fails
      rw [List.cons_append, List.flatMap_cons, List.append_assoc]
      refine (bind_eq_of_ok (a.reads_of_holds holds offset _)).trans ?_
      exact bind_eq_of_error (ih others _ fails)

end AttributeEntry

namespace Attribute

theorem eq_map_range (xs : List (List Annotation)) :
    xs = (List.range xs.length).map fun i => xs[i]?.getD [] := by
  refine List.ext_getElem (by simp) fun i small _ => ?_
  rw [List.getElem_map, List.getElem_range, List.getElem?_eq_getElem small,
    Option.getD_some]

/-- Lists that are joined one after another are joined at each position. -/
theorem foldl_merge_range (lists : List (List (List Annotation)))
    {f : Nat → List Annotation} {n : Nat} (f_nil : ∀ i, n ≤ i → f i = []) :
    lists.foldl merge ((List.range n).map f) =
      (List.range (max n ((lists.map List.length).max?.getD 0))).map fun i =>
        f i ++ lists.flatMap fun xs => xs[i]?.getD [] := by
  induction lists generalizing n f with
  | nil =>
      simp only [List.foldl_nil, List.map_nil, List.max?_nil, Option.getD_none,
        Nat.max_zero, List.flatMap_nil, List.append_nil]
  | cons xs lists ih =>
      have xs_nil (i : Nat) (le : xs.length ≤ i) : xs[i]?.getD [] = [] := by
        rw [List.getElem?_eq_none le, Option.getD_none]
      have both_nil (i : Nat) (le : max n xs.length ≤ i) :
          f i ++ xs[i]?.getD [] = [] := by
        rw [f_nil i ((Nat.le_max_left _ _).trans le),
          xs_nil i ((Nat.le_max_right _ _).trans le), List.append_nil]
      have joined := merge_range f_nil xs_nil
      rw [← eq_map_range] at joined
      rw [List.foldl_cons, joined, ih both_nil, List.map_cons,
        getD_max?_cons, Nat.max_assoc]
      simp only [List.flatMap_cons, List.append_assoc]

end Attribute

namespace NamedBody

variable {pool : ConstantPool}

/-- Attributes of other names say nothing. -/
theorem flatMap_filter_readNames {α : Type} {f : NamedBody → List α}
    (unread : ∀ a, a.name ∉ readNames → f a = []) (as : List NamedBody) :
    (as.filter fun a => a.name ∈ readNames).flatMap f = as.flatMap f := by
  induction as with
  | nil => rfl
  | cons a as ih =>
      by_cases member : a.name ∈ readNames
      · rw [List.filter_cons_of_pos (by simpa using member),
          List.flatMap_cons, List.flatMap_cons, ih]
      · rw [List.filter_cons_of_neg (by simpa using member),
          List.flatMap_cons, unread a member, List.nil_append, ih]

theorem foldl_merge_filter_readNames (as : List NamedBody)
    (lists : List (List Annotation)) :
    ((as.filter fun a => a.name ∈ readNames).map (parameters pool)).foldl
        Attribute.merge lists =
      (as.map (parameters pool)).foldl Attribute.merge lists := by
  induction as generalizing lists with
  | nil => rfl
  | cons a as ih =>
      by_cases member : a.name ∈ readNames
      · rw [List.filter_cons_of_pos (by simpa using member), List.map_cons,
          List.map_cons, List.foldl_cons, List.foldl_cons, ih]
      · rw [List.filter_cons_of_neg (by simpa using member), ih,
          List.map_cons, List.foldl_cons, parameters_of_unread member,
          Attribute.merge_nil]

end NamedBody

namespace AttributeTable

open Attribute

variable {pool : ConstantPool} (t : AttributeTable pool)

theorem forall_chosen_iff :
    (∀ a ∈ t.chosen, a.IsWhole pool) ↔ ∀ e ∈ t.entries, e.IsWhole pool := by
  constructor
  · intro chosen e member
    by_cases name : e.name ∈ NamedBody.readNames
    · refine chosen _ (List.mem_filter.mpr ⟨List.mem_map_of_mem member, ?_⟩)
      exact decide_eq_true name
    · exact NamedBody.isWhole_of_unread name
  · intro all a member
    obtain ⟨e, inside, rfl⟩ := List.mem_map.mp (List.mem_filter.mp member).1
    exact all e inside

/-- Behind their number, the attributes are read one by one. -/
theorem readAll_bytes (offset : Nat) (rest : List UInt8) :
    readAll pool ⟨offset, t.bytes ++ rest⟩ =
      times (Attribute.read pool) t.entries.length
        ⟨offset + 2, t.entries.flatMap AttributeEntry.bytes ++ rest⟩ := by
  rw [readAll, bytes, List.append_assoc,
    bind_eq_of_ok (reads_count t.few _), Bytes.length_ofNumber,
    toNat_ofNat_u2 t.few]

theorem length_bytes :
    t.bytes.length =
      2 + (t.entries.flatMap AttributeEntry.bytes).length := by
  rw [bytes, List.length_append, Bytes.length_ofNumber]

/-- What is read of a table is what each of its attributes holds. -/
def AreHeld (found : List Attribute) : Prop :=
  List.Forall₂ (fun e x => e.Holds pool x) t.entries found

variable {t} {found : List Attribute}

/-- A table is read if each of its attributes is whole. -/
theorem exists_reads_readAll (whole : ∀ e ∈ t.entries, e.IsWhole pool)
    (offset : Nat) :
    ∃ found, t.AreHeld found ∧ Reads (readAll pool) offset t.bytes found := by
  obtain ⟨found, held, reads⟩ :=
    AttributeEntry.exists_reads_times whole (offset + 2)
  refine ⟨found, held, fun rest => ?_⟩
  rw [t.readAll_bytes, reads, length_bytes, Nat.add_assoc]

theorem AreHeld.map_eq {α : Type} {f : Attribute → α} {g : NamedBody → α}
    (held : t.AreHeld found)
    (each : ∀ (a : NamedBody) x, a.Holds pool x → f x = g a) :
    found.map f = (t.entries.map AttributeEntry.toNamedBody).map g := by
  rw [List.map_map, ← List.forall₂_eq_eq_eq, List.forall₂_map_left_iff,
    List.forall₂_map_right_iff]
  exact held.flip.imp fun x e holds => each _ x holds

/-- The visible annotations of a table, and behind them the others. -/
theorem AreHeld.allAnnotations_eq (held : t.AreHeld found) :
    allAnnotations found = t.annotations := by
  have one (visible : Bool) : found.flatMap (annotationsOf visible) =
      t.chosen.flatMap (NamedBody.annotations pool visible) := by
    rw [chosen, NamedBody.flatMap_filter_readNames fun a unread =>
        NamedBody.annotations_of_unread unread visible,
      List.flatMap_def, List.flatMap_def,
      held.map_eq fun a x holds => holds.annotationsOf_eq visible]
  rw [allAnnotations, one, one, annotations]

/-- The lists of a table, parameter by parameter. -/
theorem AreHeld.allParameters_eq (held : t.AreHeld found) :
    allParameters found = t.parameters := by
  have joined := foldl_merge_range (t.chosen.map (NamedBody.parameters pool))
    (f := fun _ => []) (n := 0) fun _ _ => rfl
  rw [allParameters, held.map_eq fun a x holds => holds.parametersOf_eq,
    ← NamedBody.foldl_merge_filter_readNames]
  refine joined.trans ?_
  rw [Nat.zero_max, List.map_map]
  simp only [List.nil_append, List.flatMap_map]
  rfl

/-- The source file of a table that stands last. -/
theorem AreHeld.lastSourceFile?_eq (held : t.AreHeld found) :
    lastSourceFile? found = t.sourceFile? := by
  have files : found.filterMap sourceFileOf =
      t.chosen.filterMap (NamedBody.sourceFile? pool) := by
    rw [List.filterMap_eq_flatMap_toList, List.filterMap_eq_flatMap_toList,
      chosen, NamedBody.flatMap_filter_readNames fun a unread => by
        rw [NamedBody.sourceFile?_of_unread unread, Option.toList_none],
      List.flatMap_def, List.flatMap_def,
      held.map_eq fun a x holds => by rw [holds.sourceFileOf_eq]]
  rw [lastSourceFile?, files, sourceFile?]

/-- Whatever is read as a list of attributes is a table. -/
theorem exists_table_of_readAll {c c' : Cursor}
    (read : readAll pool c = .ok (found, c')) :
    ∃ t : AttributeTable pool, c.rest = t.bytes ++ c'.rest ∧
      t.AreHeld found := by
  obtain ⟨count, c₁, counted, all⟩ := bind_eq_ok_iff.mp read
  obtain ⟨-, rfl, front, moved⟩ := accepts_u2.sound c count c₁ counted
  obtain ⟨es, length, split, held⟩ :=
    AttributeEntry.exists_entries_of_times all
  have few : es.length < 65536 := by
    rw [length]
    exact count.toNat_lt
  refine ⟨⟨es, few⟩, ?_, held⟩
  rw [front, split, bytes, length, List.append_assoc]

variable (t)

/--
A table is read exactly if the attributes of the five names are read to their
ends, and these alone decide what it says. One that is longer than what it
holds is refused, and none is read beyond its own bytes.
-/
theorem readAll_table (offset : Nat) (rest : List UInt8) :
    ((∃ r, readAll pool ⟨offset, t.bytes ++ rest⟩ = .ok r) ↔
      ∀ a ∈ t.chosen, a.IsWhole pool) ∧
    (∀ found c, readAll pool ⟨offset, t.bytes ++ rest⟩ = .ok (found, c) →
      c = ⟨offset + t.bytes.length, rest⟩ ∧
      allAnnotations found = t.annotations ∧
      allParameters found = t.parameters ∧
      lastSourceFile? found = t.sourceFile? ∧
      ∀ (t' : AttributeTable pool) (offset' : Nat) (rest' : List UInt8),
        t'.chosen = t.chosen →
          ∃ found', readAll pool ⟨offset', t'.bytes ++ rest'⟩ =
              .ok (found', ⟨offset' + t'.bytes.length, rest'⟩) ∧
            allAnnotations found' = allAnnotations found ∧
            allParameters found' = allParameters found ∧
            lastSourceFile? found' = lastSourceFile? found) ∧
    (∀ (front : List (AttributeEntry pool)) (e : AttributeEntry pool)
        (back : List (AttributeEntry pool)) (kind : AttributeKind)
        (found : Attribute) (c : Cursor),
      t.entries = front ++ e :: back → (∀ a ∈ front, a.IsWhole pool) →
      e.name = kind.name →
      kind.readBody pool ⟨0, e.body⟩ = .ok (found, c) → c.rest ≠ [] →
        ∃ used, e.body = used ++ c.rest ∧
          readAll pool ⟨offset, t.bytes ++ rest⟩ =
            .error (.attributeLength e.name e.body.length used.length)) ∧
    ∀ e ∈ t.entries, ∀ start,
      (∃ fault, ∀ behind, Attribute.read pool ⟨start, e.bytes ++ behind⟩ =
        .error fault) ∨
      ∃ found, ∀ behind, Attribute.read pool ⟨start, e.bytes ++ behind⟩ =
        .ok (found, ⟨start + e.bytes.length, behind⟩) := by
  refine ⟨⟨?_, fun whole => ?_⟩, fun found c read => ?_, ?_,
    fun e _ start => e.read_windowed start⟩
  · rintro ⟨r, read⟩
    rw [t.readAll_bytes] at read
    exact t.forall_chosen_iff.mpr (AttributeEntry.whole_of_times read)
  · obtain ⟨found, -, reads⟩ :=
      exists_reads_readAll (t.forall_chosen_iff.mp whole) offset
    exact ⟨_, reads rest⟩
  · have one := read
    rw [t.readAll_bytes] at one
    have whole := AttributeEntry.whole_of_times one
    obtain ⟨found', held, reads⟩ := exists_reads_readAll whole offset
    rw [reads rest] at read
    cases read
    refine ⟨rfl, held.allAnnotations_eq, held.allParameters_eq,
      held.lastSourceFile?_eq, fun t' offset' rest' same => ?_⟩
    have whole' : ∀ e ∈ t'.entries, e.IsWhole pool := by
      rw [← forall_chosen_iff, same]
      exact t.forall_chosen_iff.mpr whole
    obtain ⟨found', held', reads'⟩ := exists_reads_readAll whole' offset'
    refine ⟨found', reads' rest', ?_, ?_, ?_⟩
    · rw [held'.allAnnotations_eq, held.allAnnotations_eq, annotations, same,
        annotations]
    · rw [held'.allParameters_eq, held.allParameters_eq, parameters, same,
        parameters]
    · rw [held'.lastSourceFile?_eq, held.lastSourceFile?_eq, sourceFile?, same,
        sourceFile?]
  · intro front e back kind found c split whole named read left
    obtain ⟨used, parts, fails⟩ := e.read_of_rest named read left
      (offset + 2 + (front.flatMap AttributeEntry.bytes).length)
    refine ⟨used, parts, ?_⟩
    rw [t.readAll_bytes, split]
    exact e.times_of_fault whole (offset + 2) fails rest

/-- A pool with the names of four attributes, a file and an annotation. -/
def poolOfAttributes : ConstantPool :=
  ⟨#[none, some (.utf8 "RuntimeVisibleAnnotations"),
    some (.utf8 "RuntimeInvisibleAnnotations"), some (.utf8 "Deprecated"),
    some (.utf8 "SourceFile"), some (.utf8 "A.java"), some (.utf8 "LA;")]⟩

/-- Hidden annotations in front of visible ones, with a file between them. -/
def mixedEntries : List (AttributeEntry poolOfAttributes) :=
  [⟨⟨"RuntimeInvisibleAnnotations", [0, 1, 0, 6, 0, 0]⟩, 2, rfl, by decide⟩,
    ⟨⟨"SourceFile", [0, 5]⟩, 4, rfl, by decide⟩,
    ⟨⟨"RuntimeVisibleAnnotations", [0, 1, 0, 6, 0, 0]⟩, 1, rfl, by decide⟩]

/-- An attribute of a name that is not read. -/
def deprecatedEntry : AttributeEntry poolOfAttributes :=
  ⟨⟨"Deprecated", [7, 7, 7]⟩, 3, rfl, by decide⟩

/-- A source file with a byte behind its index. -/
def longEntry : AttributeEntry poolOfAttributes :=
  ⟨⟨"SourceFile", [0, 5, 0]⟩, 4, rfl, by decide⟩

/-- The three attributes alone. -/
def mixedTable : AttributeTable poolOfAttributes :=
  ⟨mixedEntries, by decide⟩

/-- The three attributes with others among them. -/
def paddedTable : AttributeTable poolOfAttributes :=
  ⟨deprecatedEntry :: mixedEntries ++ [deprecatedEntry], by decide⟩

/-- The three attributes, and behind them one that is too long. -/
def longTable : AttributeTable poolOfAttributes :=
  ⟨mixedEntries ++ longEntry :: [deprecatedEntry], by decide⟩

/-- Deprecation is inert, and a byte too many is not. -/
theorem readAll_table_mixed :
    (∃ found found',
      readAll poolOfAttributes ⟨8, mixedTable.bytes ++ [9]⟩ =
        .ok (found, ⟨42, [9]⟩) ∧
      readAll poolOfAttributes ⟨0, paddedTable.bytes ++ []⟩ =
        .ok (found', ⟨52, []⟩) ∧
      allAnnotations found = [⟨"LA;", [], true⟩, ⟨"LA;", [], false⟩] ∧
      allAnnotations found' = allAnnotations found ∧
      lastSourceFile? found' = some "A.java") ∧
    readAll poolOfAttributes ⟨0, longTable.bytes ++ []⟩ =
      .error (.attributeLength "SourceFile" 3 2) := by
  have read : readAll poolOfAttributes ⟨8, mixedTable.bytes ++ [9]⟩ =
      .ok ([.annotations false [⟨"LA;", [], false⟩], .sourceFile "A.java",
        .annotations true [⟨"LA;", [], true⟩]], ⟨42, [9]⟩) := rfl
  obtain ⟨reads_iff, value, -, -⟩ := readAll_table mixedTable 8 [9]
  obtain ⟨-, annotations, -, -, inert⟩ := value _ _ read
  obtain ⟨found', read', annotations', -, file'⟩ :=
    inert paddedTable 0 [] rfl
  have whole := mixedTable.forall_chosen_iff.mp (reads_iff.mp ⟨_, read⟩)
  have inside : AttributeKind.sourceFile.readBody poolOfAttributes
      ⟨0, longEntry.body⟩ = .ok (.sourceFile "A.java", ⟨2, [0]⟩) := rfl
  obtain ⟨used, split, refused⟩ := (readAll_table longTable 0 []).2.2.1
    mixedEntries longEntry [deprecatedEntry] .sourceFile _ _ rfl whole rfl
    inside (List.cons_ne_nil _ _)
  have parts : [0, 5] ++ [0] = used ++ [0] := split
  rw [← List.append_cancel_right parts] at refused
  exact ⟨⟨_, found', read, read', annotations, annotations', file'⟩, refused⟩

end AttributeTable

end NativeGlue
