import Mathlib.Data.Nat.Init
import NativeGlue.Proofs.ClassFile.RoundTrip

/-!
# Class files that end too early or too late

A parser is local if it decides on the bytes that it takes: with other bytes
behind them it reads the same, and on a part of them it does not go astray, but
says which bytes are missing. All parsers of the class format are local, since
taking bytes is, and so are parsers run one after another. Hence no accepted
file begins with another, and a file that is cut off is told from a bad one.
-/

namespace NativeGlue
namespace Parser

variable {α β : Type} {p : Parser α} {f : α → Parser β}

/-- On a part of some bytes, a parser says which bytes are missing. -/
def Lacks (p : Parser α) (offset : Nat) (used : List UInt8) : Prop :=
  ∀ cut rest, used = cut ++ rest → rest ≠ [] →
    ∃ position needed,
      p ⟨offset, cut⟩ = .error (.truncated position needed) ∧
        position ≤ offset + cut.length ∧
        offset + cut.length < position + needed

/-- A parser decides on the bytes that it takes, and needs them all. -/
def IsLocal (p : Parser α) : Prop :=
  ∀ c x c', p c = .ok (x, c') →
    ∃ used, c.rest = used ++ c'.rest ∧ Reads p c.offset used x ∧
      Lacks p c.offset used

theorem isLocal_of_reads_nil {x : Nat → α}
    (reads : ∀ offset, Reads p offset [] (x offset)) : IsLocal p := by
  intro c y c' read
  have here := reads c.offset c.rest
  rw [List.nil_append, read] at here
  cases here
  refine ⟨[], rfl, reads c.offset, fun cut rest split nonempty => ?_⟩
  exact absurd (List.append_eq_nil_iff.mp split.symm).2 nonempty

theorem isLocal_pure (x : α) : IsLocal (pure x) :=
  isLocal_of_reads_nil fun _ => reads_pure x

theorem isLocal_position : IsLocal position :=
  isLocal_of_reads_nil fun _ _ => rfl

theorem isLocal_fail (e : FormatError) : IsLocal (fail e : Parser α) := by
  intro c x c' read
  cases read

/-- Parsers that are run one after another are local if each of them is. -/
theorem IsLocal.bind (first : IsLocal p) (second : ∀ x, IsLocal (f x)) :
    IsLocal (p >>= f) := by
  intro c y c'' read
  obtain ⟨x, c', here, there⟩ := bind_eq_ok_iff.mp read
  obtain ⟨used, front, reads, lacks⟩ := first c x c' here
  obtain ⟨used', back, reads', lacks'⟩ := second x c' y c'' there
  have moved : c' = ⟨c.offset + used.length, c'.rest⟩ := by
    have again := reads c'.rest
    rw [← front, here] at again
    exact congrArg Prod.snd (Except.ok.inj again)
  rw [moved] at reads' lacks'
  refine ⟨used ++ used', by rw [front, back, List.append_assoc],
    reads.bind reads', ?_⟩
  intro cut rest split nonempty
  -- Either the first parser is cut short, or it reads all it needs.
  have inside : (∃ more, more ≠ [] ∧ used = cut ++ more) ∨
      ∃ more, cut = used ++ more ∧ used' = more ++ rest := by
    rcases List.append_eq_append_iff.mp split with
      ⟨more, rfl, eq⟩ | ⟨more, eq, rfl⟩
    · exact .inr ⟨more, rfl, eq⟩
    · by_cases all : more = []
      · subst all
        exact .inr ⟨[], by simpa using eq.symm, rfl⟩
      · exact .inl ⟨more, all, eq⟩
  rcases inside with ⟨more, nonempty, eq⟩ | ⟨more, rfl, eq⟩
  · obtain ⟨position, needed, failed, within⟩ := lacks cut more eq nonempty
    exact ⟨position, needed, bind_eq_of_error failed, within⟩
  · obtain ⟨position, needed, failed, within⟩ := lacks' more rest eq nonempty
    rw [Nat.add_assoc, ← List.length_append] at within
    exact ⟨position, needed, (bind_eq_of_ok (reads more)).trans failed,
      within⟩

theorem isLocal_bytes (n : Nat) : IsLocal (bytes n) := by
  intro c x c' read
  rw [bytes] at read
  split at read
  · rename_i front back found
    cases read
    obtain ⟨rfl, eq⟩ := splitExact_eq_some_iff.mp found
    refine ⟨x, eq, reads_bytes x, ?_⟩
    rintro cut rest rfl nonempty
    have missing := List.length_pos_iff.mpr nonempty
    have short : cut.length < (cut ++ rest).length := by
      rw [List.length_append]
      omega
    refine ⟨c.offset, (cut ++ rest).length, ?_, by omega, by omega⟩
    rw [bytes, splitExact_eq_none short]
  · cases read

theorem isLocal_u1 : IsLocal u1 :=
  (isLocal_bytes 1).bind fun _ => isLocal_pure _

theorem isLocal_u2 : IsLocal u2 :=
  (isLocal_bytes 2).bind fun _ => isLocal_pure _

theorem isLocal_u4 : IsLocal u4 :=
  (isLocal_bytes 4).bind fun _ => isLocal_pure _

theorem isLocal_u8 : IsLocal u8 :=
  (isLocal_bytes 8).bind fun _ => isLocal_pure _

theorem isLocal_skip (n : Nat) : IsLocal (skip n) :=
  (isLocal_bytes n).bind fun _ => isLocal_pure _

theorem isLocal_window (n : Nat) : IsLocal (window n) :=
  isLocal_position.bind fun _ =>
    (isLocal_bytes n).bind fun _ => isLocal_pure _

theorem IsLocal.times (each : IsLocal p) (n : Nat) : IsLocal (p.times n) := by
  induction n with
  | zero =>
      exact isLocal_pure []
  | succ n ih =>
      exact each.bind fun _ => ih.bind fun _ => isLocal_pure _

theorem isLocal_lookup (get : Nat → Except FormatError α) :
    IsLocal (lookup get) := by
  refine isLocal_u2.bind fun index => ?_
  cases get index.toNat with
  | ok x => exact isLocal_pure x
  | error e => exact isLocal_fail e

end Parser

open NativeGlue.Parser

namespace Constant

theorem isLocal_readUtf8 : IsLocal readUtf8 := by
  refine isLocal_u2.bind fun length => isLocal_position.bind fun start =>
    (isLocal_bytes length.toNat).bind fun encoded => ?_
  cases Text.ModifiedUtf8.decode start encoded with
  | ok text => exact isLocal_pure _
  | error offset => exact isLocal_fail _

/-- Constants of every kind are read by a local parser. -/
theorem isLocal_readBody (kind : ConstantKind) : IsLocal (readBody kind) := by
  have one {α : Type} {p : Parser α} (h : IsLocal p) (g : α → Constant) :
      IsLocal (p >>= fun x => pure (g x)) :=
    h.bind fun _ => isLocal_pure _
  have two {α : Type} {p : Parser α} (h : IsLocal p)
      (g : α → UInt16 → Constant) :
      IsLocal (p >>= fun x => u2 >>= fun y => pure (g x y)) :=
    h.bind fun x => one isLocal_u2 (g x)
  cases kind with
  | utf8 => exact isLocal_readUtf8
  | integer | float => exact one isLocal_u4 _
  | long | double => exact one isLocal_u8 _
  | classRef | string | methodType | module | package =>
      exact one isLocal_u2 _
  | fieldRef | methodRef | interfaceMethodRef | nameAndType | dynamic
  | invokeDynamic => exact two isLocal_u2 _
  | methodHandle => exact two isLocal_u1 _

theorem isLocal_read : IsLocal Constant.read := by
  refine isLocal_position.bind fun offset => isLocal_u1.bind fun tag => ?_
  cases ConstantKind.ofTag? tag with
  | some kind => exact isLocal_readBody kind
  | none => exact isLocal_fail _

end Constant

namespace ConstantPool

/-- A wide constant takes two slots, so two steps of the recursion are taken. -/
theorem isLocal_readSlots (count left : Nat) :
    IsLocal (readSlots count left) := by
  induction left using Nat.twoStepInduction with
  | zero =>
      exact isLocal_pure []
  | one =>
      refine Constant.isLocal_read.bind fun c => ?_
      cases c.kind.isWide
      · exact (isLocal_pure []).bind fun _ => isLocal_pure _
      · exact isLocal_fail _
  | more left wide narrow =>
      refine Constant.isLocal_read.bind fun c => ?_
      cases c.kind.isWide
      · exact narrow.bind fun _ => isLocal_pure _
      · exact wide.bind fun _ => isLocal_pure _

theorem isLocal_read : IsLocal ConstantPool.read :=
  isLocal_u2.bind fun count =>
    (isLocal_readSlots count.toNat (count.toNat - 1)).bind fun _ =>
      isLocal_pure _

end ConstantPool

namespace Attribute

variable (pool : ConstantPool)

/-- The contents are read in a window, so nothing of the file is taken. -/
theorem isLocal_readWhole (name : String) (declared : Nat) (w : Cursor)
    (p : Parser Attribute) : IsLocal (readWhole name declared w p) := by
  rw [readWhole]
  split
  · exact isLocal_fail _
  · split
    · exact isLocal_pure _
    · exact isLocal_fail _

theorem isLocal_read : IsLocal (Attribute.read pool) := by
  refine (isLocal_lookup _).bind fun name => isLocal_u4.bind fun declared =>
    (isLocal_window declared.toNat).bind fun w => ?_
  cases AttributeKind.ofName? name with
  | some kind => exact isLocal_readWhole _ _ _ _
  | none => exact isLocal_pure _

theorem isLocal_readAll : IsLocal (Attribute.readAll pool) :=
  isLocal_u2.bind fun count => (isLocal_read pool).times count.toNat

end Attribute

namespace ClassFile

theorem isLocal_readVersion : IsLocal readVersion := by
  refine isLocal_u4.bind fun found => ?_
  by_cases magical : found ≠ magic
  · rw [if_pos magical]
    exact isLocal_fail _
  · rw [if_neg magical]
    refine isLocal_u2.bind fun minor => isLocal_u2.bind fun major => ?_
    cases isSupported major
    · exact isLocal_fail _
    · exact isLocal_pure _

theorem isLocal_skipField (pool : ConstantPool) : IsLocal (skipField pool) :=
  (isLocal_skip 6).bind fun _ =>
    (Attribute.isLocal_readAll pool).bind fun _ => isLocal_pure _

theorem isLocal_readMethod (pool : ConstantPool) :
    IsLocal (readMethod pool) :=
  isLocal_u2.bind fun _ => (isLocal_lookup _).bind fun _ =>
    (isLocal_lookup _).bind fun _ =>
      (Attribute.isLocal_readAll pool).bind fun _ => isLocal_pure _

theorem isLocal_read : IsLocal ClassFile.read :=
  isLocal_readVersion.bind fun (_, _) =>
    ConstantPool.isLocal_read.bind fun pool =>
      isLocal_u2.bind fun _ => (isLocal_lookup _).bind fun _ =>
        (isLocal_lookup _).bind fun _ => isLocal_u2.bind fun interfaces =>
          ((isLocal_lookup _).times interfaces.toNat).bind fun _ =>
            isLocal_u2.bind fun fields =>
              ((isLocal_skipField pool).times fields.toNat).bind fun _ =>
                isLocal_u2.bind fun methods =>
                  ((isLocal_readMethod pool).times methods.toNat).bind
                    fun _ => (Attribute.isLocal_readAll pool).bind
                      fun _ => isLocal_pure _

/-- A file is accepted if it is read to its end. -/
theorem parse_eq_ok_iff {input : List UInt8} {file : ClassFile} :
    parse input = .ok file ↔
      ∃ offset, read (.ofBytes input) = .ok (file, ⟨offset, []⟩) := by
  rw [parse]
  cases found : read (.ofBytes input) with
  | error e => simp
  | ok result =>
      obtain ⟨file', offset, rest⟩ := result
      cases rest <;> simp [Cursor.isAtEnd, eq_comm]

/--
Of an accepted file, every proper beginning ends inside of a structure, which
starts within it and needs more bytes than there are. With more bytes behind
it, all of these are left over.
-/
theorem parse_of_accepted {input : List UInt8} {file : ClassFile}
    (accepted : parse input = .ok file) :
    (∀ cut rest, input = cut ++ rest → rest ≠ [] →
      ∃ offset needed, parse cut = .error (.truncated offset needed) ∧
        offset ≤ cut.length ∧ cut.length < offset + needed) ∧
      ∀ behind, behind ≠ [] →
        parse (input ++ behind) = .error (.trailingBytes behind.length) := by
  obtain ⟨offset, found⟩ := parse_eq_ok_iff.mp accepted
  obtain ⟨used, (all : input = used ++ []), (reads : Reads read 0 used file),
    (lacks : Lacks read 0 used)⟩ := isLocal_read _ _ _ found
  rw [List.append_nil] at all
  subst all
  constructor
  · intro cut rest split nonempty
    obtain ⟨position, needed, failed, start, short⟩ :=
      lacks cut rest split nonempty
    rw [Nat.zero_add] at start short
    refine ⟨position, needed, ?_, start, short⟩
    rw [parse, Cursor.ofBytes, failed]
  · intro behind nonempty
    have longer : read (.ofBytes (input ++ behind)) =
        .ok (file, ⟨0 + input.length, behind⟩) := reads behind
    have left : Cursor.isAtEnd ⟨0 + input.length, behind⟩ = false := by
      simpa [Cursor.isAtEnd] using nonempty
    rw [parse, longer]
    simp only [left, Bool.false_eq_true, if_false, Cursor.remaining]

theorem parse_of_accepted_annotated :
    parse ClassSpec.annotated.toBytes = .ok ClassSpec.annotated.described ∧
      (∃ offset needed, parse (ClassSpec.annotated.toBytes.take 200) =
          .error (.truncated offset needed) ∧
        offset ≤ 200 ∧ 200 < offset + needed) ∧
      parse (ClassSpec.annotated.toBytes ++ [0]) =
        .error (.trailingBytes 1) := by
  have accepted :
      parse ClassSpec.annotated.toBytes = .ok ClassSpec.annotated.described :=
    parse_of_reads (ClassSpec.reads_toBytes (by decide))
  obtain ⟨ends_early, ends_late⟩ := parse_of_accepted accepted
  refine ⟨accepted, ?_, ends_late [0] (List.cons_ne_nil _ _)⟩
  exact ends_early _ (ClassSpec.annotated.toBytes.drop 200)
    (List.take_append_drop 200 _).symm (by decide)

end ClassFile
end NativeGlue
