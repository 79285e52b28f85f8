import Mathlib.Algebra.GroupWithZero.Nat
import Mathlib.Algebra.Order.Group.Nat
import Mathlib.Data.Nat.Init
import NativeGlue.ClassFile.ConstantPool
import NativeGlue.Proofs.ClassFile.Forms
import NativeGlue.Proofs.Text.ModifiedUtf8

/-!
# Indices of the constant pool

A constant is laid out as its tag and what its kind has behind it. A pool is
read from its count and from constants in this form whose widths fill it; each
constant then has the index that those before it leave, where a wide one takes
two. So the indices of the file and those of the pool stay aligned, whatever
kinds of constants stand between.

Main statement: `read_aligned`.
-/

namespace NativeGlue

open NativeGlue.Parser

theorem ConstantKind.ofTag?_eq_some_iff {b : UInt8} {kind : ConstantKind} :
    ofTag? b = some kind ↔ b = kind.tag := by
  constructor
  · intro found
    simpa [eq_comm] using List.find?_some found
  · rintro rfl
    cases kind <;> rfl

/-- Whether a text is decoded does not depend on where its bytes stand. -/
theorem Text.ModifiedUtf8.decode_eq_ok {start : Nat} {bytes : List UInt8}
    {text : String} (decoded : decode start bytes = .ok text)
    (other : Nat) : decode other bytes = .ok text := by
  rw [decode_eq_decodeGroups, decodeGroups] at decoded ⊢
  cases units : readUnits bytes with
  | error left =>
      rw [units] at decoded
      cases decoded
  | ok us =>
      rw [units] at decoded
      cases chars : ofUnits? us with
      | none =>
          simp only [chars] at decoded
          cases decoded
      | some cs =>
          simp only [chars] at decoded ⊢
          exact decoded

namespace Constant

/-- The bytes that a constant has behind its tag. -/
def HasBody : Constant → List UInt8 → Prop
  | utf8 text, body => ∃ encoded : List UInt8, encoded.length < 65536 ∧
      Text.ModifiedUtf8.decode 0 encoded = .ok text ∧
      body = Bytes.ofNumber 2 encoded.length ++ encoded
  | integer value, body => body = Bytes.ofNumber 4 value.toUInt32.toNat
  | float bits, body => body = Bytes.ofNumber 4 bits.toNat
  | long value, body => body = Bytes.ofNumber 8 value.toUInt64.toNat
  | double bits, body => body = Bytes.ofNumber 8 bits.toNat
  | classRef i, body | string i, body | methodType i, body | module i, body
  | package i, body => body = Bytes.ofNumber 2 i.toNat
  | fieldRef i j, body | methodRef i j, body | interfaceMethodRef i j, body
  | nameAndType i j, body | dynamic i j, body | invokeDynamic i j, body =>
      body = Bytes.ofNumber 2 i.toNat ++ Bytes.ofNumber 2 j.toNat
  | methodHandle k i, body =>
      body = k :: Bytes.ofNumber 2 i.toNat

/-- The bytes of a constant. -/
def IsLaidOut (c : Constant) (used : List UInt8) : Prop :=
  ∃ body, c.HasBody body ∧ used = c.kind.tag :: body

/-- The number of indices that a constant takes. -/
def width (c : Constant) : Nat :=
  if c.kind.isWide then 2 else 1

/-- Constants one after another, in file order. -/
inductive AreLaidOut : List Constant → List UInt8 → Prop
  | nil : AreLaidOut [] []
  | cons {c : Constant} {cs : List Constant} {a b : List UInt8}
      (first : c.IsLaidOut a) (rest : AreLaidOut cs b) :
      AreLaidOut (c :: cs) (a ++ b)

/-- The number of indices that constants take. -/
def widths (cs : List Constant) : Nat := (cs.map width).sum

@[simp] theorem widths_nil : widths [] = 0 := rfl

@[simp] theorem widths_cons (c : Constant) (cs : List Constant) :
    widths (c :: cs) = c.width + widths cs := by
  simp [widths]

section Reading

variable {kind : ConstantKind}

/-- The constants of a kind, with what they have behind their tag. -/
def BodyOf (kind : ConstantKind) (c : Constant) (body : List UInt8) : Prop :=
  c.kind = kind ∧ c.HasBody body

theorem accepts_readUtf8 : Accepts readUtf8 (BodyOf .utf8) := by
  have counted : Accepts readUtf8 fun c used =>
      ∃ (length : UInt16) (a b : _), a = Bytes.ofNumber 2 length.toNat ∧
        (∃ (encoded a' b' : _),
          (a' = encoded ∧ encoded.length = length.toNat) ∧
          ((∃ text, Text.ModifiedUtf8.decode 0 encoded = .ok text ∧
            c = utf8 text) ∧ b' = []) ∧ b = a' ++ b') ∧ used = a ++ b := by
    refine accepts_u2.bind fun length => Accepts.position_bind fun start =>
      (accepts_bytes length.toNat).bind fun encoded => ?_
    cases decoded : Text.ModifiedUtf8.decode start encoded with
    | ok text =>
        refine (accepts_pure (utf8 text)).congr fun c used => ?_
        rw [Text.ModifiedUtf8.decode_eq_ok decoded 0]
        simp
    | error offset =>
        refine (accepts_fail _).congr fun c used => ?_
        rw [false_iff]
        rintro ⟨⟨text, found, -⟩, -⟩
        rw [Text.ModifiedUtf8.decode_eq_ok found start] at decoded
        cases decoded
  refine counted.congr fun c used => ?_
  constructor
  · rintro ⟨length, _, _, rfl, ⟨encoded, _, _, ⟨rfl, long⟩,
      ⟨⟨text, decoded, rfl⟩, rfl⟩, rfl⟩, rfl⟩
    refine ⟨rfl, _, ?_, decoded, ?_⟩
    · rw [long]
      exact length.toNat_lt
    · rw [long, List.append_nil]
  · rintro ⟨same, body⟩
    cases c <;> cases same
    obtain ⟨encoded, small, decoded, rfl⟩ := body
    have number : (UInt16.ofNat encoded.length).toNat = encoded.length := by
      rw [UInt16.toNat_ofNat', Nat.mod_eq_of_lt small]
    exact ⟨UInt16.ofNat encoded.length, _, _, rfl,
      ⟨encoded, _, _, ⟨rfl, number.symm⟩, ⟨⟨_, decoded, rfl⟩, rfl⟩,
        (List.append_nil _).symm⟩, by rw [number]⟩

section Bodies

variable {α : Type} {p : Parser α}

/-- Constants that are made of one value are read as this value is. -/
theorem accepts_one {form : α → List UInt8 → Prop} {g : α → Constant}
    (accepts : Accepts p form)
    (made : ∀ x used, form x used → BodyOf kind (g x) used)
    (parts : ∀ c used, BodyOf kind c used → ∃ x, form x used ∧ c = g x) :
    Accepts (p >>= fun x => pure (g x)) (BodyOf kind) := by
  refine (accepts.map g).congr fun c used => ⟨?_, parts c used⟩
  rintro ⟨x, fits, rfl⟩
  exact made x used fits

/-- Constants that are made of a value and an index have both in their bytes. -/
theorem accepts_two {bytes : α → List UInt8} {g : α → UInt16 → Constant}
    (accepts : Accepts p fun x used => used = bytes x)
    (made : ∀ x i, BodyOf kind (g x i) (bytes x ++ Bytes.ofNumber 2 i.toNat))
    (parts : ∀ c used, BodyOf kind c used → ∃ x i, c = g x i ∧
      used = bytes x ++ Bytes.ofNumber 2 i.toNat) :
    Accepts (p >>= fun x => u2 >>= fun i => pure (g x i)) (BodyOf kind) := by
  refine (accepts.bind fun x => accepts_u2.map (g x)).congr fun c used => ?_
  constructor
  · rintro ⟨x, _, _, rfl, ⟨i, rfl, rfl⟩, rfl⟩
    exact made x i
  · intro body
    obtain ⟨x, i, rfl, rfl⟩ := parts c used body
    exact ⟨x, _, _, rfl, ⟨i, rfl, rfl⟩, rfl⟩

end Bodies

/-- Every kind is read from the bytes that its constants have. -/
theorem accepts_readBody (kind : ConstantKind) :
    Accepts (readBody kind) (BodyOf kind) := by
  cases kind with
  | utf8 => exact accepts_readUtf8
  | integer =>
      refine accepts_one accepts_u4 (fun x used fits => ⟨rfl, ?_⟩) ?_
      · rw [HasBody, UInt32.toUInt32_toInt32, fits]
      · rintro c used ⟨same, body⟩
        cases c <;> cases same
        exact ⟨_, body, by rw [Int32.toInt32_toUInt32]⟩
  | long =>
      refine accepts_one accepts_u8 (fun x used fits => ⟨rfl, ?_⟩) ?_
      · rw [HasBody, UInt64.toUInt64_toInt64, fits]
      · rintro c used ⟨same, body⟩
        cases c <;> cases same
        exact ⟨_, body, by rw [Int64.toInt64_toUInt64]⟩
  | float =>
      refine accepts_one accepts_u4 (fun x used fits => ⟨rfl, fits⟩) ?_
      rintro c used ⟨same, body⟩
      cases c <;> cases same
      exact ⟨_, body, rfl⟩
  | double =>
      refine accepts_one accepts_u8 (fun x used fits => ⟨rfl, fits⟩) ?_
      rintro c used ⟨same, body⟩
      cases c <;> cases same
      exact ⟨_, body, rfl⟩
  | classRef | string | methodType | module | package =>
      refine accepts_one accepts_u2 (fun x used fits => ⟨rfl, fits⟩) ?_
      rintro c used ⟨same, body⟩
      cases c <;> cases same
      exact ⟨_, body, rfl⟩
  | fieldRef | methodRef | interfaceMethodRef | nameAndType | dynamic
  | invokeDynamic =>
      refine accepts_two accepts_u2 (fun x y => ⟨rfl, rfl⟩) ?_
      rintro c used ⟨same, body⟩
      cases c <;> cases same
      exact ⟨_, _, rfl, body⟩
  | methodHandle =>
      refine accepts_two accepts_u1 (fun x y => ⟨rfl, rfl⟩) ?_
      rintro c used ⟨same, body⟩
      cases c <;> cases same
      exact ⟨_, _, rfl, body⟩

/-- Exactly the bytes of constants are read as constants. -/
theorem accepts_read : Accepts Constant.read IsLaidOut := by
  have tagged : Accepts Constant.read fun c used => ∃ (tag : UInt8) (a b : _),
      a = [tag] ∧ (c.HasBody b ∧ tag = c.kind.tag) ∧ used = a ++ b := by
    refine Accepts.position_bind fun offset => accepts_u1.bind fun tag => ?_
    cases kinds : ConstantKind.ofTag? tag with
    | some kind =>
        obtain rfl := ConstantKind.ofTag?_eq_some_iff.mp kinds
        refine (accepts_readBody kind).congr fun c body => ?_
        rw [← ConstantKind.ofTag?_eq_some_iff, kinds, Option.some.injEq,
          BodyOf, and_comm, eq_comm]
    | none =>
        refine (accepts_fail _).congr fun c body => ?_
        rw [← ConstantKind.ofTag?_eq_some_iff, kinds]
        simp
  refine tagged.congr fun c used => ?_
  constructor
  · rintro ⟨_, _, body, rfl, ⟨fits, rfl⟩, rfl⟩
    exact ⟨body, fits, rfl⟩
  · rintro ⟨body, fits, rfl⟩
    exact ⟨c.kind.tag, _, body, rfl, ⟨fits, rfl⟩, rfl⟩

end Reading

/-- The slots of a constant. -/
def ownSlots (c : Constant) : List (Option Constant) :=
  if c.kind.isWide then [some c, none] else [some c]

theorem length_ownSlots (c : Constant) : c.ownSlots.length = c.width := by
  rw [ownSlots, width]
  split <;> rfl

end Constant

namespace ConstantPool

open Constant

/-- The index of a constant by its place: one, and what those before it take. -/
def indexOf (cs : List Constant) (place : Nat) : Nat :=
  1 + widths (cs.take place)

/-- The pool of some constants. -/
def ofConstants (cs : List Constant) : ConstantPool :=
  ⟨(none :: cs.flatMap ownSlots).toArray⟩

section Reading

variable {count left : Nat} {cs : List Constant} {used : List UInt8}
  {c : Constant}

/-- A constant fills its slots if there are so many left. -/
theorem readSlots_of_isLaidOut (laid : c.IsLaidOut used) {offset : Nat}
    {rest : List UInt8} :
    readSlots count (c.width + left) ⟨offset, used ++ rest⟩ =
      (readSlots count left ⟨offset + used.length, rest⟩).map
        fun (tail, after) => (c.ownSlots ++ tail, after) := by
  have read := accepts_read.complete offset used c laid rest
  rw [width, ownSlots]
  cases wide : c.kind.isWide with
  | true =>
      rw [if_pos rfl, if_pos rfl, Nat.add_comm, readSlots,
        bind_eq_of_ok read, wide]
      cases behind : readSlots count left ⟨offset + used.length, rest⟩ with
      | ok r => exact bind_eq_of_ok behind
      | error e => exact bind_eq_of_error behind
  | false =>
      rw [if_neg Bool.false_ne_true, if_neg Bool.false_ne_true, Nat.add_comm,
        readSlots, bind_eq_of_ok read, wide]
      cases behind : readSlots count left ⟨offset + used.length, rest⟩ with
      | ok r => exact bind_eq_of_ok behind
      | error e => exact bind_eq_of_error behind

/-- Constants fill their slots, and the rest is read as without them. -/
theorem readSlots_of_areLaidOut (count left : Nat) (laid : AreLaidOut cs used)
    (offset : Nat) (rest : List UInt8) :
    readSlots count (widths cs + left) ⟨offset, used ++ rest⟩ =
      (readSlots count left ⟨offset + used.length, rest⟩).map
        fun (tail, after) => (cs.flatMap ownSlots ++ tail, after) := by
  induction laid generalizing offset with
  | nil =>
      rw [widths_nil, Nat.zero_add, List.nil_append, List.length_nil,
        Nat.add_zero]
      cases readSlots count left ⟨offset, rest⟩ <;> rfl
  | @cons c cs a b first _ ih =>
      rw [widths_cons, Nat.add_assoc, List.append_assoc,
        readSlots_of_isLaidOut first, ih, List.length_append, Nat.add_assoc]
      cases readSlots count left ⟨offset + (a.length + b.length), rest⟩ with
      | ok r => simp [Except.map]
      | error e => rfl

/-- Constants that fill a number of slots, and lie between two cursors. -/
def Fills (left : Nat) (start after : Cursor)
    (filled : List (Option Constant)) : Prop :=
  ∃ cs used, AreLaidOut cs used ∧ widths cs = left ∧
    filled = cs.flatMap ownSlots ∧ start.rest = used ++ after.rest ∧
    after.offset = start.offset + used.length

/-- A constant may stand in front of what fills the other slots. -/
theorem Fills.cons {start between after : Cursor}
    {tail : List (Option Constant)}
    (read : Constant.read start = .ok (c, between))
    (rest : Fills left between after tail) :
    Fills (c.width + left) start after (c.ownSlots ++ tail) := by
  obtain ⟨used, laid, front, moved⟩ := accepts_read.sound _ _ _ read
  obtain ⟨cs, behind, others, rfl, rfl, back, moved'⟩ := rest
  refine ⟨c :: cs, used ++ behind, .cons laid others, widths_cons c cs, rfl,
    ?_, ?_⟩
  · rw [front, back, List.append_assoc]
  · rw [moved', moved, List.length_append, Nat.add_assoc]

/-- Slots are only filled with constants of so many indices. -/
theorem fills_of_readSlots {start after : Cursor}
    {filled : List (Option Constant)}
    (read : readSlots count left start = .ok (filled, after)) :
    Fills left start after filled := by
  -- A wide constant takes two slots, so two steps of the recursion are taken.
  induction left using Nat.twoStepInduction generalizing start filled with
  | zero =>
      cases read
      exact ⟨[], [], .nil, rfl, rfl, rfl, rfl⟩
  | one =>
      obtain ⟨c, between, here, there⟩ := bind_eq_ok_iff.mp read
      cases wide : c.kind.isWide with
      | true =>
          rw [wide] at there
          cases there
      | false =>
          rw [wide] at there
          cases there
          have fills := Fills.cons here ⟨[], [], .nil, rfl, rfl, rfl, rfl⟩
          simpa [width, ownSlots, wide] using fills
  | more left two one =>
      obtain ⟨c, between, here, there⟩ := bind_eq_ok_iff.mp read
      cases wide : c.kind.isWide with
      | true =>
          rw [wide] at there
          obtain ⟨tail, _, behind, made⟩ := bind_eq_ok_iff.mp there
          cases made
          have fills := Fills.cons here (two behind)
          simpa [width, ownSlots, wide, Nat.add_comm] using fills
      | false =>
          rw [wide] at there
          obtain ⟨tail, _, behind, made⟩ := bind_eq_ok_iff.mp there
          cases made
          have fills := Fills.cons here (one behind)
          simpa [width, ownSlots, wide, Nat.add_comm 1] using fills

/-- A pool with its count in front is read from constants that fill it. -/
theorem read_of_areLaidOut {count : UInt16} (laid : AreLaidOut cs used)
    (full : widths cs = count.toNat - 1) (offset : Nat) (rest : List UInt8) :
    ConstantPool.read
        ⟨offset, Bytes.ofNumber 2 count.toNat ++ used ++ rest⟩ =
      .ok (ofConstants cs, ⟨offset + 2 + used.length, rest⟩) := by
  have counted := accepts_u2.complete offset _ count rfl (used ++ rest)
  have filled := readSlots_of_areLaidOut count.toNat 0 laid (offset + 2)
    rest
  rw [Nat.add_zero, full, readSlots] at filled
  rw [ConstantPool.read, List.append_assoc, bind_eq_of_ok counted,
    Bytes.length_ofNumber, bind_eq_of_ok filled, List.append_nil]
  rfl

/-- A wide constant does not fit into the last slot. -/
theorem read_of_overrun {count : UInt16} {last : List UInt8}
    (laid : AreLaidOut cs used) (laidLast : c.IsLaidOut last)
    (wide : c.kind.isWide = true)
    (full : indexOf cs cs.length + 1 = count.toNat)
    (offset : Nat) (rest : List UInt8) :
    ConstantPool.read
        ⟨offset, Bytes.ofNumber 2 count.toNat ++ (used ++ last) ++ rest⟩ =
      .error (.badConstantIndex count.toNat) := by
  rw [indexOf, List.take_length] at full
  have counted := accepts_u2.complete offset _ count rfl
    (used ++ last ++ rest)
  have single := accepts_read.complete (offset + 2 + used.length) last c
    laidLast rest
  have failed : readSlots count.toNat 1
      ⟨offset + 2 + used.length, last ++ rest⟩ =
        .error (.badConstantIndex count.toNat) := by
    rw [readSlots, bind_eq_of_ok single, wide]
    rfl
  have filled := readSlots_of_areLaidOut count.toNat 1 laid (offset + 2)
    (last ++ rest)
  rw [failed] at filled
  have left : count.toNat - 1 = widths cs + 1 := by omega
  rw [ConstantPool.read, List.append_assoc, bind_eq_of_ok counted,
    Bytes.length_ofNumber, left, List.append_assoc]
  exact bind_eq_of_error filled

/-- A pool that is read is that of constants in the bytes behind its count. -/
theorem exists_of_read {start after : Cursor} {pool : ConstantPool}
    (read : ConstantPool.read start = .ok (pool, after)) :
    ∃ (count : UInt16) (cs : List Constant) (used : List UInt8),
      AreLaidOut cs used ∧ widths cs = count.toNat - 1 ∧
      pool = ofConstants cs ∧
      start.rest = Bytes.ofNumber 2 count.toNat ++ used ++ after.rest ∧
      after.offset = start.offset + 2 + used.length := by
  obtain ⟨count, between, counted, behind⟩ := bind_eq_ok_iff.mp read
  obtain ⟨filled, _, slots, made⟩ := bind_eq_ok_iff.mp behind
  cases made
  obtain ⟨_, rfl, front, moved⟩ := accepts_u2.sound _ _ _ counted
  obtain ⟨cs, used, laid, full, rfl, back, moved'⟩ :=
    fills_of_readSlots slots
  refine ⟨count, cs, used, laid, full, rfl, ?_, ?_⟩
  · rw [front, back, List.append_assoc]
  · rw [moved', moved, Bytes.length_ofNumber]

end Reading

section Indices

variable {cs : List Constant} {c : Constant}

theorem indexOf_cons_succ (c : Constant) (cs : List Constant) (place : Nat) :
    indexOf (c :: cs) (place + 1) = c.width + indexOf cs place := by
  rw [indexOf, indexOf, List.take_succ_cons, widths_cons]
  omega

theorem length_flatMap_ownSlots (cs : List Constant) :
    (cs.flatMap ownSlots).length = widths cs := by
  induction cs with
  | nil => rfl
  | cons c cs ih =>
      rw [List.flatMap_cons, List.length_append, length_ownSlots, ih,
        widths_cons]

theorem size_ofConstants (cs : List Constant) :
    (ofConstants cs).size = 1 + widths cs := by
  rw [size, ofConstants, List.size_toArray, List.length_cons,
    length_flatMap_ownSlots, Nat.add_comm]

/-- A constant is found at an index if it is listed with that index. -/
theorem get_eq_ok_iff {pool : ConstantPool} {i : Nat} :
    pool.get i = .ok c ↔ (i, c) ∈ pool.entries := by
  have listed : (i, c) ∈ pool.entries ↔ pool.slots[i]? = some (some c) := by
    simp [entries, List.mem_filterMap, List.mk_mem_zipIdx_iff_getElem?]
  rw [listed, get]
  cases pool.slots[i]? with
  | none => simp
  | some slot => cases slot <;> simp

/-- The slots of constants hold these in order, from where the first stands. -/
theorem filterMap_zipIdx_slots (cs : List Constant) (start : Nat) :
    ((cs.flatMap ownSlots).zipIdx start).filterMap
        (fun (slot, i) => slot.map fun c => (i, c)) =
      cs.mapIdx fun place c => (start + widths (cs.take place), c) := by
  induction cs generalizing start with
  | nil => rfl
  | cons c cs ih =>
      have own : (c.ownSlots.zipIdx start).filterMap
          (fun (slot, i) => slot.map fun c => (i, c)) = [(start, c)] := by
        rw [ownSlots]
        split <;> rfl
      rw [List.flatMap_cons, List.zipIdx_append, List.filterMap_append, own,
        length_ownSlots, ih, List.mapIdx_cons]
      simp [Nat.add_assoc]

/-- The entries of a pool are its constants in order, each with its index. -/
theorem entries_ofConstants (cs : List Constant) :
    (ofConstants cs).entries =
      cs.mapIdx fun place c => (indexOf cs place, c) := by
  rw [entries, ofConstants, List.toList_toArray, List.zipIdx_cons,
    List.filterMap_cons]
  exact filterMap_zipIdx_slots cs 1

/-- A place that a wide constant leaves without use. -/
def IsBehindWide (cs : List Constant) (i : Nat) : Prop :=
  ∃ place c, cs[place]? = some c ∧ c.kind.isWide = true ∧
    i = indexOf cs place + 1

theorem isBehindWide_cons_iff {i : Nat} :
    IsBehindWide (c :: cs) i ↔
      (c.kind.isWide = true ∧ i = 2) ∨
        ∃ j, IsBehindWide cs j ∧ i = c.width + j := by
  constructor
  · rintro ⟨place, d, found, wide, rfl⟩
    cases place with
    | zero =>
        cases found
        exact .inl ⟨wide, rfl⟩
    | succ place =>
        refine .inr ⟨_, ⟨place, d, found, wide, rfl⟩, ?_⟩
        rw [indexOf_cons_succ, Nat.add_assoc]
  · rintro (⟨wide, rfl⟩ | ⟨_, ⟨place, d, found, wide, rfl⟩, rfl⟩)
    · exact ⟨0, c, rfl, wide, rfl⟩
    · refine ⟨place + 1, d, found, wide, ?_⟩
      rw [indexOf_cons_succ, Nat.add_assoc]

theorem IsBehindWide.one_lt {i : Nat} (behind : IsBehindWide cs i) :
    1 < i := by
  obtain ⟨place, c, -, -, rfl⟩ := behind
  rw [indexOf]
  omega

/-- Only the slot behind a wide constant holds nothing. -/
theorem getElem?_flatMap_ownSlots_eq_none_iff {i : Nat} :
    (cs.flatMap ownSlots)[i]? = some none ↔ IsBehindWide cs (i + 1) := by
  induction cs generalizing i with
  | nil => simp [IsBehindWide]
  | cons c cs ih =>
      rw [List.flatMap_cons, isBehindWide_cons_iff, ownSlots, width]
      -- past the slots of the first constant stand those of the others
      have behind (i skipped : Nat) :
          (cs.flatMap ownSlots)[i]? = some none ↔
            ∃ j, IsBehindWide cs j ∧ i + skipped + 1 = skipped + j := by
        rw [ih]
        constructor
        · exact fun inside => ⟨i + 1, inside, by omega⟩
        · rintro ⟨j, inside, eq⟩
          obtain rfl : j = i + 1 := by omega
          exact inside
      have early {i skipped : Nat} (within : i ≤ skipped) :
          ¬ ∃ j, IsBehindWide cs j ∧ i + 1 = skipped + j := by
        rintro ⟨j, inside, eq⟩
        have far := inside.one_lt
        omega
      cases c.kind.isWide with
      | true =>
          match i with
          | 0 => simpa using early (Nat.zero_le 2)
          | 1 => simp
          | i + 2 => simpa using behind i 2
      | false =>
          match i with
          | 0 => simpa using early (Nat.zero_le 1)
          | i + 1 => simpa using behind i 1

/-- What holds of the indices of a pool that has some constants. -/
structure Aligned (pool : ConstantPool) (cs : List Constant) : Prop where
  /-- Each constant has the index that those before it leave. -/
  placed : ∀ place c, cs[place]? = some c →
    pool.get (indexOf cs place) = .ok c
  /-- Only slot zero and the slot behind a wide constant are not usable. -/
  unusable : ∀ i, pool.slots[i]? = some none ↔ i = 0 ∨
    ∃ place c, cs[place]? = some c ∧ c.kind.isWide = true ∧
      i = indexOf cs place + 1
  /-- A constant is found at exactly the indices that are listed. -/
  found : ∀ i c, pool.get i = .ok c ↔ (i, c) ∈ pool.entries
  /-- The list has the constants in file order. -/
  entries : pool.entries = cs.mapIdx fun place c => (indexOf cs place, c)

theorem aligned_ofConstants (cs : List Constant) :
    (ofConstants cs).Aligned cs where
  placed place c found := by
    rw [get_eq_ok_iff, entries_ofConstants, List.mem_mapIdx]
    obtain ⟨inside, here⟩ := List.getElem?_eq_some_iff.mp found
    exact ⟨place, inside, by rw [here]⟩
  unusable i := by
    cases i with
    | zero => simp [ofConstants]
    | succ i =>
        have slot : (ofConstants cs).slots[i + 1]? =
            (cs.flatMap ownSlots)[i]? := by
          simp [ofConstants]
        rw [slot, getElem?_flatMap_ownSlots_eq_none_iff, IsBehindWide,
          or_iff_right (Nat.succ_ne_zero i)]
  found i c := get_eq_ok_iff
  entries := entries_ofConstants cs

end Indices

/--
A pool that is read has as many slots as its count says, one at least, and its
indices are aligned with the constants in its bytes, which are all that is
taken, whatever follows them. Constants that fill a count are read, and a wide
one that would need a slot more is refused.
-/
theorem read_aligned :
    (∀ offset input pool after,
      ConstantPool.read ⟨offset, input⟩ = .ok (pool, after) →
        ∃ (count : UInt16) (cs : List Constant) (used : List UInt8),
          AreLaidOut cs used ∧
          input = Bytes.ofNumber 2 count.toNat ++ used ++ after.rest ∧
          after.offset = offset + 2 + used.length ∧
          pool.size = max count.toNat 1 ∧ pool.Aligned cs ∧
          ∀ rest, ConstantPool.read
              ⟨offset, Bytes.ofNumber 2 count.toNat ++ used ++ rest⟩ =
            .ok (pool, ⟨offset + 2 + used.length, rest⟩)) ∧
    (∀ (count : UInt16) cs used, 1 ≤ count.toNat → AreLaidOut cs used →
      widths cs = count.toNat - 1 → ∀ offset rest, ∃ pool,
        ConstantPool.read
            ⟨offset, Bytes.ofNumber 2 count.toNat ++ used ++ rest⟩ =
          .ok (pool, ⟨offset + 2 + used.length, rest⟩) ∧
        pool.size = count.toNat ∧ pool.Aligned cs) ∧
    ∀ (count : UInt16) cs used (c : Constant) last, AreLaidOut cs used →
      c.IsLaidOut last → c.kind.isWide = true →
      indexOf cs cs.length + 1 = count.toNat → ∀ offset rest,
        ConstantPool.read
            ⟨offset, Bytes.ofNumber 2 count.toNat ++ (used ++ last) ++ rest⟩ =
          .error (.badConstantIndex count.toNat) := by
  refine ⟨?_, ?_, ?_⟩
  · intro offset input pool after read
    obtain ⟨count, cs, used, laid, full, rfl, taken, moved⟩ :=
      exists_of_read read
    refine ⟨count, cs, used, laid, taken, moved, ?_, aligned_ofConstants cs,
      read_of_areLaidOut laid full offset⟩
    rw [size_ofConstants, full]
    omega
  · intro count cs used positive laid full offset rest
    refine ⟨ofConstants cs, read_of_areLaidOut laid full offset rest, ?_,
      aligned_ofConstants cs⟩
    rw [size_ofConstants, full]
    omega
  · intro count cs used c last laid laidLast wide full offset rest
    exact read_of_overrun laid laidLast wide full offset rest

/-- A long constant in front of another one, and one without its second slot. -/
theorem read_aligned_long :
    (∃ pool, ConstantPool.read ⟨0, Bytes.ofNumber 2 4 ++
          ([5, 0, 0, 0, 0, 0, 0, 0, 42] ++ ([3, 0, 0, 0, 7] ++ [])) ++ [9]⟩ =
        .ok (pool, ⟨16, [9]⟩) ∧
      pool.get 1 = .ok (.long 42) ∧ pool.get 3 = .ok (.integer 7) ∧
      pool.slots[2]? = some none) ∧
    ConstantPool.read ⟨0, Bytes.ofNumber 2 2 ++
        ([] ++ [5, 0, 0, 0, 0, 0, 0, 0, 42]) ++ [9]⟩ =
      .error (.badConstantIndex 2) := by
  have long : (Constant.long 42).IsLaidOut
      [5, 0, 0, 0, 0, 0, 0, 0, 42] := ⟨_, rfl, by decide⟩
  have int : (Constant.integer 7).IsLaidOut [3, 0, 0, 0, 7] :=
    ⟨_, rfl, by decide⟩
  obtain ⟨pool, read, -, aligned⟩ := read_aligned.2.1 4 _ _ (by decide)
    (.cons long (.cons int .nil)) rfl 0 [9]
  exact ⟨⟨pool, read, aligned.placed 0 _ rfl, aligned.placed 1 _ rfl,
      (aligned.unusable 2).mpr (.inr ⟨0, _, rfl, rfl, rfl⟩)⟩,
    read_aligned.2.2 2 _ _ _ _ .nil long rfl rfl 0 [9]⟩

end ConstantPool
end NativeGlue
