import NativeGlue.Proofs.ClassFile.Description
import NativeGlue.Proofs.ClassFile.Writing

/-!
# Written annotations are read

An annotation is written in as many bytes as it is said to be, and read as the
annotation that it describes, value by value inside it.
-/

namespace NativeGlue

open NativeGlue.Parser Writer

/-- A writer that writes the same number of bytes whatever is in the pool. -/
def HasSize (w : Writer) (n : Nat) : Prop :=
  ∀ p, (w p).1.length = n

namespace HasSize

variable {w v : Writer} {m n : Nat}

theorem seq (first : HasSize w m) (second : HasSize v n) :
    HasSize (seq w v) (m + n) := by
  intro p
  change ((w p).1 ++ (v (w p).2).1).length = m + n
  rw [List.length_append, first, second]

theorem index (step : StateM PoolBuilder Nat) : HasSize (index step) 2 :=
  fun _ => rfl

theorem plain (bytes : List UInt8) : HasSize (plain bytes) bytes.length :=
  fun _ => rfl

variable {ι : Type} {items : List ι} {ws : ι → Writer} {size : ι → Nat}

theorem all (each : ∀ i ∈ items, HasSize (ws i) (size i)) :
    HasSize (all (items.map ws)) (items.map size).sum := by
  induction items with
  | nil =>
      exact fun _ => rfl
  | cons i items ih =>
      rw [List.forall_mem_cons] at each
      exact each.1.seq (ih each.2)

theorem counted (each : ∀ i ∈ items, HasSize (ws i) (size i)) :
    HasSize (counted (items.map ws)) (2 + (items.map size).sum) :=
  seq (fun _ => rfl) (all each)

end HasSize

namespace ElementSpec

theorem writeElements_eq (elements : List (String × ElementSpec)) :
    writeElements elements = all (elements.map writeElement) := by
  induction elements with
  | nil => rfl
  | cons e rest ih =>
      rw [writeElements, ih]
      rfl

/-- Elements are written as a list is, with their number in front. -/
theorem seq_writeElements (elements : List (String × ElementSpec)) :
    seq (plain (Bytes.u2 elements.length)) (writeElements elements) =
      counted (elements.map writeElement) := by
  rw [writeElements_eq, counted, List.length_map]

theorem hasSize_taggedTexts (tag : Char) (texts : List String) :
    HasSize (counted (texts.map (taggedText tag)))
      (2 + 3 * texts.length) := by
  have each (s : String) (_ : s ∈ texts) : HasSize (taggedText tag s) 3 :=
    (HasSize.plain [UInt8.ofNat tag.toNat]).seq
      (HasSize.index (PoolBuilder.text s))
  have size := HasSize.counted each
  rwa [List.map_const', List.sum_replicate_nat, Nat.mul_comm] at size

mutual

/-- A value is written in as many bytes as its size says. -/
theorem hasSize_write : (v : ElementSpec) → HasSize v.write v.size
  | string _ | boolean _ => fun _ => rfl
  | strings texts => by
      have size := (HasSize.plain [UInt8.ofNat '['.toNat]).seq
        (hasSize_taggedTexts 's' texts)
      rwa [← Nat.add_assoc] at size
  | classes names => by
      have size := (HasSize.plain [UInt8.ofNat '['.toNat]).seq
        (hasSize_taggedTexts 'c' (names.map fun n => "L" ++ n ++ ";"))
      rwa [← Nat.add_assoc, List.map_map, List.length_map] at size
  | nested type _ elements => by
      have size := (HasSize.plain [UInt8.ofNat '@'.toNat]).seq
        ((HasSize.index (PoolBuilder.text type)).seq
          ((HasSize.plain (Bytes.u2 elements.length)).seq
            (hasSize_writeElements elements)))
      rwa [← Nat.add_assoc, ← Nat.add_assoc] at size

theorem hasSize_writeElements :
    (elements : List (String × ElementSpec)) →
      HasSize (writeElements elements) (totalSize elements)
  | [] => fun _ => rfl
  | (name, v) :: rest =>
      ((HasSize.index (PoolBuilder.text name)).seq (hasSize_write v)).seq
        (hasSize_writeElements rest)

end

end ElementSpec

/-- Reads an element with its name. -/
def Annotation.readElement (pool : ConstantPool)
    (value : Parser ElementValue) : Parser (String × ElementValue) := do
  let name ← lookup pool.text
  let v ← value
  return (name, v)

namespace ReadAs

open Annotation

variable {w : Writer} {visible : Bool} {budget : Nat}

/-- A value is read once its tag is, where values may still nest. -/
theorem value {tag : Char} {x : ElementValue}
    (small : Char.ofNat (UInt8.ofNat tag.toNat).toNat = tag)
    (rest : ∀ offset, ReadAs w
      (fun pool => readTagged pool visible (readValue pool visible budget)
        offset tag) x) :
    ReadAs (seq (Writer.plain [UInt8.ofNat tag.toNat]) w)
      (fun pool => readValue pool visible (budget + 1)) x where
  keeps := (keeps_pure _).bind fun _ => (rest 0).keeps.bind fun _ =>
    keeps_pure _
  reads p final later offset := by
    refine Reads.position_bind ((reads_u1 (UInt8.ofNat tag.toNat)).bind ?_)
    rw [small]
    exact (rest offset).reads p final later _

section Texts

variable {tag : Char} {make : String → ElementValue}
  (small : Char.ofNat (UInt8.ofNat tag.toNat).toNat = tag)
  (made : ∀ pool inner offset, readTagged pool visible inner offset tag =
    lookup pool.text >>= fun s => pure (make s))
include small made

theorem taggedText {text : String} (fits : TextFits text) :
    ReadAs (taggedText tag text)
      (fun pool => readValue pool visible (budget + 1)) (make text) := by
  refine value small fun offset => ?_
  simp only [made]
  exact (index (.text fits)).map make

/-- Texts that carry a tag each are read as an array. -/
theorem array {names : List String} {f : String → String}
    (fit : ∀ n ∈ names, TextFits (f n)) (few : names.length ≤ 65535)
    (deep : (if names.isEmpty then 1 else 2) ≤ budget + 1) :
    ReadAs (seq (Writer.plain [UInt8.ofNat '['.toNat])
        (Writer.counted (names.map fun n => Writer.taggedText tag (f n))))
      (fun pool => readValue pool visible (budget + 1))
      (.array (names.map fun n => make (f n))) := by
  refine value rfl fun offset => ?_
  refine counted_map (each_map fun n member => ?_) ?_ ElementValue.array
  · -- only if there is an item, a level is left for it
    have filled : names.isEmpty = false :=
      List.isEmpty_eq_false_iff.mpr (List.ne_nil_of_mem member)
    rw [filled, if_neg Bool.false_ne_true] at deep
    obtain _ | budget := budget
    · omega
    · exact taggedText small made (fit n member)
  · rwa [List.length_map]

end Texts

/-- A type and elements are read, as the values of elements are. -/
theorem parts {type : String} {elements : List (String × ElementSpec)}
    {xs : List (String × ElementValue)}
    {inner : ConstantPool → Parser ElementValue} (fits : TextFits type)
    (few : elements.length ≤ 65535)
    (each : List.Forall₂
      (fun w x => ReadAs w (fun pool => readElement pool (inner pool)) x)
      (elements.map ElementSpec.writeElement) xs) :
    ReadAs (seq (Writer.index (PoolBuilder.text type))
        (seq (Writer.plain (Bytes.u2 elements.length))
          (ElementSpec.writeElements elements)))
      (fun pool => readParts pool (inner pool)) (type, xs) := by
  rw [ElementSpec.seq_writeElements]
  refine (index (.text fits)).bind (counted_map each ?_ (Prod.mk type))
  rwa [← each.length_eq, List.length_map]

end ReadAs

namespace ElementSpec

open Annotation

theorem levels_pos (v : ElementSpec) : 0 < v.levels := by
  cases v with
  | string | boolean => exact Nat.one_pos
  | strings | classes =>
      rw [levels]
      split <;> decide
  | nested =>
      rw [levels]
      omega

variable {visible : Bool}

-- The readers' budget goes down with each level, so it bounds the levels left.
mutual

/-- A value is read where values may nest as deep as it does. -/
theorem readAs_write : (v : ElementSpec) → (budget : Nat) →
    (∀ text ∈ v.texts, TextFits text) → (∀ n ∈ v.counts, n ≤ 65535) →
    v.levels ≤ budget + 1 →
      ReadAs v.write (fun pool => readValue pool visible (budget + 1))
        (v.value visible)
  | string text, _, fit, _, _ =>
      .taggedText rfl (fun _ _ _ => rfl) (fit text List.mem_cons_self)
  | strings texts, _, fit, few, deep =>
      .array (f := id) rfl (fun _ _ _ => rfl) fit (few _ List.mem_cons_self)
        deep
  | boolean b, _, _, _, _ => by
      have read := (ReadAs.index (.integer (if b then 1 else 0))).map
        fun n => ElementValue.boolean (n ≠ 0)
      have same : decide ((if b then 1 else 0 : UInt32).toInt32 ≠ 0) = b := by
        cases b <;> decide
      rw [same] at read
      exact .value rfl fun offset => read
  | classes names, _, fit, few, deep =>
      .array rfl (fun _ _ _ => rfl) (List.forall_mem_map.mp fit)
        (few _ List.mem_cons_self) deep
  | nested type _ elements, budget, fit, few, deep => by
      rw [texts, List.forall_mem_cons] at fit
      rw [counts, List.forall_mem_cons] at few
      rw [levels, Nat.add_comm, Nat.add_le_add_iff_right] at deep
      refine .value rfl fun offset => ?_
      exact (ReadAs.parts fit.1 few.1
        (each_writeElement elements budget fit.2 few.2 deep)).map
          fun (type, elements) => ElementValue.nested type elements visible

/-- Elements are read one after another. -/
theorem each_writeElement : (elements : List (String × ElementSpec)) →
    (budget : Nat) → (∀ text ∈ allTexts elements, TextFits text) →
    (∀ n ∈ allCounts elements, n ≤ 65535) → maxLevels elements ≤ budget →
      List.Forall₂
        (fun w x => ReadAs w
          (fun pool => readElement pool (readValue pool visible budget)) x)
        (elements.map writeElement) (values visible elements)
  | [], _, _, _, _ => .nil
  | (name, v) :: rest, 0, _, _, deep =>
      absurd (Nat.max_le.mp deep).1 (Nat.not_le_of_lt v.levels_pos)
  | (name, v) :: rest, budget + 1, fit, few, deep => by
      rw [allTexts, List.forall_mem_cons, List.forall_mem_append] at fit
      rw [allCounts, List.forall_mem_append] at few
      rw [maxLevels, Nat.max_le] at deep
      have first := readAs_write v budget fit.2.1 few.1 deep.1
      exact .cons ((ReadAs.index (.text fit.1)).bind (first.map (Prod.mk name)))
        (each_writeElement rest (budget + 1) fit.2.2 few.2 deep.2)

end

end ElementSpec

namespace AnnotationSpec

open Annotation

theorem hasSize_write (a : AnnotationSpec) : HasSize a.write a.size := by
  have size := (HasSize.index (PoolBuilder.text a.type)).seq
    ((HasSize.plain (Bytes.u2 a.elements.length)).seq
      (ElementSpec.hasSize_writeElements a.elements))
  rwa [← Nat.add_assoc] at size

/-- An annotation within the limits is read. -/
theorem readAs_write {a : AnnotationSpec} (limits : a.WithinLimits) :
    ReadAs a.write (fun pool => Annotation.read pool a.visible)
      a.described := by
  obtain ⟨fit, few, deep⟩ := limits
  rw [List.forall_mem_cons] at fit few
  exact (ReadAs.parts fit.1 few.1
    (ElementSpec.each_writeElement a.elements 32 fit.2 few.2 deep)).map
      fun (type, elements) => Annotation.mk type elements a.visible

end AnnotationSpec

/-- Annotations of one visibility are read as a list. -/
theorem readAs_annotations {visible : Bool} {list : List AnnotationSpec}
    (each : ∀ a ∈ list, a.WithinLimits ∧ a.visible = visible)
    (few : list.length ≤ 65535) :
    ReadAs (counted (list.map AnnotationSpec.write))
      (fun pool => Annotation.readAll pool visible)
      (list.map AnnotationSpec.described) := by
  refine ReadAs.counted (ReadAs.each_map fun a member => ?_) ?_
  · obtain ⟨limits, rfl⟩ := each a member
    exact AnnotationSpec.readAs_write limits
  · rwa [List.length_map]

theorem hasSize_annotations (list : List AnnotationSpec) :
    HasSize (counted (list.map AnnotationSpec.write)) (listSize list) :=
  .counted fun a _ => a.hasSize_write

end NativeGlue
