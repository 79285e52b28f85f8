import Mathlib.Order.Basic
import NativeGlue.ClassFile.Writer
import NativeGlue.Proofs.ClassFile.Reading
import NativeGlue.Proofs.Text.ModifiedUtf8

/-!
# The constants of a written class

The pool of a written class is read back constant by constant. While a class is
written its pool only grows at the end, so an index that was given out stands
for the same constant in every later pool, and a look-up in the pool that is
read finds it.
-/

namespace NativeGlue

open NativeGlue.Parser

section Numbers

variable {offset : Nat}

theorem Cursor.bigEndian_u2 (n : Nat) :
    bigEndian (Bytes.u2 n) = n % 65536 := by
  have high := UInt8.toNat_ofNat' (n := n / 256)
  have low := UInt8.toNat_ofNat' (n := n)
  simp only [bigEndian, Bytes.u2, List.foldl_cons, List.foldl_nil, high, low]
  omega

theorem Cursor.bigEndian_u4 (n : Nat) :
    bigEndian (Bytes.u4 n) = n % 4294967296 := by
  have first := UInt8.toNat_ofNat' (n := n / 65536 / 256)
  have second := UInt8.toNat_ofNat' (n := n / 65536)
  have third := UInt8.toNat_ofNat' (n := n / 256)
  have fourth := UInt8.toNat_ofNat' (n := n)
  simp only [bigEndian, Bytes.u4, Bytes.u2, List.cons_append, List.nil_append,
    List.foldl_cons, List.foldl_nil, first, second, third, fourth]
  omega

theorem Parser.reads_u1 (b : UInt8) : Reads u1 offset [b] b := by
  have read : Reads u1 offset [b] (UInt8.ofNat (Cursor.bigEndian [b])) :=
    (reads_bytes [b]).map fun front => UInt8.ofNat (Cursor.bigEndian front)
  have same : UInt8.ofNat (Cursor.bigEndian [b]) = b := by
    simp [Cursor.bigEndian]
  rwa [same] at read

theorem Parser.reads_u2 (n : Nat) :
    Reads u2 offset (Bytes.u2 n) (UInt16.ofNat n) := by
  have read : Reads u2 offset (Bytes.u2 n)
      (UInt16.ofNat (Cursor.bigEndian (Bytes.u2 n))) :=
    (reads_bytes (Bytes.u2 n)).map fun front =>
      UInt16.ofNat (Cursor.bigEndian front)
  have same : UInt16.ofNat (Cursor.bigEndian (Bytes.u2 n)) =
      UInt16.ofNat n := by
    rw [Cursor.bigEndian_u2, ← UInt16.toNat_inj, UInt16.toNat_ofNat',
      UInt16.toNat_ofNat']
    exact Nat.mod_mod n 65536
  rwa [same] at read

theorem Parser.reads_u4 (n : Nat) :
    Reads u4 offset (Bytes.u4 n) (UInt32.ofNat n) := by
  have read : Reads u4 offset (Bytes.u4 n)
      (UInt32.ofNat (Cursor.bigEndian (Bytes.u4 n))) :=
    (reads_bytes (Bytes.u4 n)).map fun front =>
      UInt32.ofNat (Cursor.bigEndian front)
  have same : UInt32.ofNat (Cursor.bigEndian (Bytes.u4 n)) =
      UInt32.ofNat n := by
    rw [Cursor.bigEndian_u4, ← UInt32.toNat_inj, UInt32.toNat_ofNat',
      UInt32.toNat_ofNat']
    exact Nat.mod_mod n 4294967296
  rwa [same] at read

theorem toNat_ofNat_u2 {n : Nat} (small : n < 65536) :
    (UInt16.ofNat n).toNat = n := by
  rw [UInt16.toNat_ofNat', Nat.mod_eq_of_lt small]

end Numbers

/-- A text whose length can be written in two bytes. -/
def TextFits (text : String) : Prop :=
  (Text.ModifiedUtf8.encode text).length ≤ 65535

instance (text : String) : Decidable (TextFits text) :=
  inferInstanceAs (Decidable (_ ≤ _))

namespace WrittenConstant

/-- The constant that is read for a written one. -/
def constant : WrittenConstant → Constant
  | utf8 text => .utf8 text
  | classRef name => .classRef (UInt16.ofNat name)
  | integer value => .integer value.toInt32

/-- A constant whose text, if it has one, fits. -/
def Fits : WrittenConstant → Prop
  | utf8 text => TextFits text
  | _ => True

theorem isWide_constant (c : WrittenConstant) :
    c.constant.kind.isWide = false := by
  cases c <;> rfl

theorem reads_readUtf8 {encoded : List UInt8} {text : String}
    (small : encoded.length ≤ 65535)
    (decoded : ∀ start, Text.ModifiedUtf8.decode start encoded = .ok text)
    {offset : Nat} :
    Reads Constant.readUtf8 offset (Bytes.u2 encoded.length ++ encoded)
      (.utf8 text) := by
  refine (reads_u2 encoded.length).bind (Reads.position_bind ?_)
  rw [toNat_ofNat_u2 (Nat.lt_succ_of_le small)]
  intro rest
  rw [bind_eq_of_ok (reads_bytes encoded rest), decoded]
  rfl

/-- A written constant is read back. -/
theorem reads_constant {c : WrittenConstant} (fits : c.Fits)
    {offset : Nat} : Reads Constant.read offset c.bytes c.constant := by
  have announced {tag : UInt8} {kind : ConstantKind} {body : List UInt8}
      (kinds : ConstantKind.ofTag? tag = some kind)
      (read : ∀ offset, Reads (Constant.readBody kind) offset body
        c.constant) :
      Reads Constant.read offset (tag :: body) c.constant := by
    rw [Constant.read]
    refine Reads.position_bind ((reads_u1 tag).bind ?_)
    rw [kinds]
    exact read _
  cases c with
  | utf8 text =>
      exact announced rfl fun _ => reads_readUtf8 fits fun start =>
        Text.ModifiedUtf8.decode_encode start text
  | classRef name =>
      exact announced rfl fun offset =>
        (reads_u2 name).map Constant.classRef
  | integer value =>
      refine announced rfl fun offset => ?_
      have read := @reads_u4 offset value.toNat
      rw [UInt32.ofNat_toNat] at read
      exact read.map fun w => Constant.integer w.toInt32

end WrittenConstant

namespace PoolBuilder

/-- The pool that is read. -/
def toPool (p : PoolBuilder) : ConstantPool :=
  ⟨(none :: p.constants.map fun c => some c.constant).toArray⟩

/-- A pool whose texts all fit. -/
def Fits (p : PoolBuilder) : Prop :=
  ∀ c ∈ p.constants, c.Fits

theorem reads_slots {count offset : Nat} {cs : List WrittenConstant}
    (fits : ∀ c ∈ cs, c.Fits) :
    Reads (ConstantPool.readSlots count cs.length) offset
      (cs.flatMap WrittenConstant.bytes)
      (cs.map fun c => some c.constant) := by
  induction cs generalizing offset with
  | nil =>
      exact reads_pure []
  | cons c cs ih =>
      rw [List.forall_mem_cons] at fits
      rw [List.flatMap_cons, List.length_cons, ConstantPool.readSlots]
      refine (WrittenConstant.reads_constant fits.1).bind ?_
      rw [WrittenConstant.isWide_constant]
      exact (ih fits.2).map (some c.constant :: ·)

/-- The pool is read back, if its size can be written. -/
theorem reads_toPool {p : PoolBuilder} (fits : p.Fits)
    (small : p.constants.length < 65535) {offset : Nat} :
    Reads ConstantPool.read offset p.bytes p.toPool := by
  refine (reads_u2 (p.constants.length + 1)).bind ?_
  rw [toNat_ofNat_u2 (by omega), Nat.add_sub_cancel]
  exact (reads_slots fits).map fun slots =>
    ConstantPool.mk (none :: slots).toArray

/-- One pool is another with more constants behind. -/
instance : Preorder PoolBuilder where
  le p q := p.constants <+: q.constants
  le_refl p := List.prefix_rfl
  le_trans _ _ _ := List.IsPrefix.trans

/-- The constant that an index stands for. -/
def Holds (p : PoolBuilder) (index : Nat) (c : WrittenConstant) : Prop :=
  ∃ place, index = place + 1 ∧ p.constants[place]? = some c

namespace Holds

variable {p q : PoolBuilder} {index : Nat} {c : WrittenConstant}

/-- In a pool that has grown, an index stands for the same constant. -/
theorem mono (holds : p.Holds index c) (le : p ≤ q) : q.Holds index c := by
  obtain ⟨place, eq, found⟩ := holds
  obtain ⟨more, grown⟩ : p.constants <+: q.constants := le
  refine ⟨place, eq, ?_⟩
  rw [← grown, List.getElem?_append_left
    (List.getElem?_eq_some_iff.mp found).1, found]

theorem le_length (holds : p.Holds index c) :
    index ≤ p.constants.length := by
  obtain ⟨place, rfl, found⟩ := holds
  exact (List.getElem?_eq_some_iff.mp found).1

theorem ne_zero (holds : p.Holds index c) : index ≠ 0 := by
  obtain ⟨place, rfl, -⟩ := holds
  exact Nat.succ_ne_zero place

/-- The pool that is read has the constant at the index. -/
theorem get_toPool (holds : p.Holds index c) :
    p.toPool.get index = .ok c.constant := by
  obtain ⟨place, rfl, found⟩ := holds
  have slot : p.toPool.slots[place + 1]? = some (some c.constant) := by
    simp [toPool, found]
  rw [ConstantPool.get, slot]

theorem text_toPool {text : String} (holds : p.Holds index (.utf8 text)) :
    p.toPool.text index = .ok text := by
  rw [ConstantPool.text, holds.get_toPool]
  rfl

theorem integer_toPool {value : UInt32}
    (holds : p.Holds index (.integer value)) :
    p.toPool.integer index = .ok value.toInt32 := by
  rw [ConstantPool.integer, holds.get_toPool]
  rfl

theorem className_toPool {place : Nat} {name : String}
    (holds : p.Holds index (.classRef place))
    (text : p.Holds place (.utf8 name)) (small : place < 65536) :
    p.toPool.className index = .ok ⟨name⟩ := by
  rw [ConstantPool.className, holds.get_toPool]
  simp only [WrittenConstant.constant, toNat_ofNat_u2 small,
    text.text_toPool]

end Holds

/-- An index is given out, and the pool holds the constant from then on. -/
theorem intern_spec (c : WrittenConstant) (p : PoolBuilder) :
    p ≤ (intern c p).2 ∧ (intern c p).2.Holds (intern c p).1 c ∧
      ∀ d ∈ (intern c p).2.constants, d ∈ p.constants ∨ d = c := by
  rw [intern]
  -- either the constant is there already, or it is put at the end
  split
  · rename_i place found
    obtain ⟨bound, same, -⟩ := List.findIdx?_eq_some_iff_getElem.mp found
    have at_place : p.constants[place]? = some c := by
      rw [List.getElem?_eq_getElem bound]
      exact congrArg some (by simpa using same)
    exact ⟨le_rfl, ⟨place, rfl, at_place⟩, fun d member => .inl member⟩
  · refine ⟨List.prefix_append _ _, ⟨_, rfl, List.getElem?_concat_length⟩, ?_⟩
    intro d member
    exact (List.mem_append.mp member).imp_right List.mem_singleton.mp

end PoolBuilder

end NativeGlue
