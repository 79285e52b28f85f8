import Mathlib.Data.List.Forall2
import NativeGlue.Proofs.ClassFile.Interning

/-!
# What is written is read

A writer is read as a value if in every pool that comes after it, the one of
the finished file among them, its bytes are read as that value. So writers can
be put together piece by piece, as their readers are, though the pool grows
with each piece.
-/

namespace NativeGlue

open NativeGlue.Parser

variable {α β : Type}

/-- A step that adds constants to the pool, and only such that fit. -/
structure Keeps (step : StateM PoolBuilder α) : Prop where
  grows : ∀ p, p ≤ (step p).2
  fits : ∀ p : PoolBuilder, p.Fits → (step p).2.Fits

theorem keeps_pure (x : α) : Keeps (pure x) :=
  ⟨fun _ => le_rfl, fun _ fits => fits⟩

theorem Keeps.bind {step : StateM PoolBuilder α}
    {next : α → StateM PoolBuilder β} (first : Keeps step)
    (second : ∀ x, Keeps (next x)) : Keeps (step >>= next) where
  grows p := (first.grows p).trans ((second (step p).1).grows (step p).2)
  fits p fits := (second (step p).1).fits (step p).2 (first.fits p fits)

theorem keeps_intern {c : WrittenConstant} (fits : c.Fits) :
    Keeps (PoolBuilder.intern c) where
  grows p := (PoolBuilder.intern_spec c p).1
  fits p all d member := by
    rcases (PoolBuilder.intern_spec c p).2.2 d member with old | rfl
    · exact all d old
    · exact fits

/-- A pool that is not too large, in which another one has its indices. -/
structure PoolBuilder.Final (p final : PoolBuilder) : Prop where
  le : p ≤ final
  small : final.constants.length < 65535

theorem PoolBuilder.Final.index_lt {p final : PoolBuilder} {index : Nat}
    {c : WrittenConstant} (later : p.Final final)
    (holds : final.Holds index c) : index < 65536 :=
  Nat.lt_of_le_of_lt holds.le_length (Nat.lt_succ_of_lt later.small)

/-- A step that gives out an index, at which look-ups find a value. -/
structure Finds (step : StateM PoolBuilder Nat)
    (get : ConstantPool → Nat → Except FormatError α) (x : α) : Prop where
  keeps : Keeps step
  finds : ∀ p final, (step p).2.Final final →
    (step p).1 < 65536 ∧ get final.toPool (step p).1 = .ok x

namespace Finds

open PoolBuilder

theorem text {s : String} (fits : TextFits s) :
    Finds (PoolBuilder.text s) ConstantPool.text s where
  keeps := keeps_intern fits
  finds p final later := by
    have holds := (intern_spec (.utf8 s) p).2.1.mono later.le
    exact ⟨later.index_lt holds, holds.text_toPool⟩

theorem integer (value : UInt32) :
    Finds (intern (.integer value)) ConstantPool.integer value.toInt32 where
  keeps := keeps_intern trivial
  finds p final later := by
    have holds := (intern_spec (.integer value) p).2.1.mono later.le
    exact ⟨later.index_lt holds, holds.integer_toPool⟩

theorem className {name : String} (fits : TextFits name) :
    Finds (classRef name) ConstantPool.className ⟨name⟩ where
  keeps := (text fits).keeps.bind fun _ => keeps_intern trivial
  finds p final later := by
    -- the name enters first, and stays where it is when the class enters
    have second := intern_spec (.classRef (PoolBuilder.text name p).1)
      (PoolBuilder.text name p).2
    have holds := second.2.1.mono later.le
    have name := (intern_spec (.utf8 name) p).2.1.mono
      (second.1.trans later.le)
    exact ⟨later.index_lt holds,
      holds.className_toPool name (later.index_lt name)⟩

/-- An index that is given out is not zero. -/
theorem className? {name : String} (fits : TextFits name) :
    Finds (classRef name) ConstantPool.className? (some ⟨name⟩) where
  keeps := (className fits).keeps
  finds p final later := by
    obtain ⟨bound, found⟩ := (className fits).finds p final later
    have given : (classRef name p).1 ≠ 0 :=
      (intern_spec _ _).2.1.ne_zero
    refine ⟨bound, ?_⟩
    rw [ConstantPool.className?, if_neg given, found]

end Finds

theorem Writer.seq_assoc (a b c : Writer) :
    seq (seq a b) c = seq a (seq b c) := by
  funext p
  exact congrArg (·, (c (b (a p).2).2).2) (List.append_assoc _ _ _)

/-- A writer whose bytes are read as a value in every later pool. -/
structure ReadAs (w : Writer) (q : ConstantPool → Parser α) (x : α) :
    Prop where
  keeps : Keeps w
  reads : ∀ p final, (w p).2.Final final →
    ∀ offset, Reads (q final.toPool) offset (w p).1 x

namespace ReadAs

open Writer

variable {w v : Writer} {q : ConstantPool → Parser α} {x : α}
  {r : ConstantPool → α → Parser β} {y : β}

theorem nothing (x : α) : ReadAs nothing (fun _ => pure x) x where
  keeps := keeps_pure _
  reads _ _ _ _ := reads_pure x

theorem plain {bytes : List UInt8} {q : Parser α}
    (read : ∀ offset, Reads q offset bytes x) :
    ReadAs (plain bytes) (fun _ => q) x where
  keeps := keeps_pure _
  reads _ _ _ offset := read offset

theorem u2 (n : Nat) :
    ReadAs (Writer.plain (Bytes.u2 n)) (fun _ => Parser.u2)
      (UInt16.ofNat n) :=
  plain fun _ => reads_u2 n

/-- Pieces that are written one after another are read so. -/
theorem bind (first : ReadAs w q x)
    (second : ReadAs v (fun pool => r pool x) y) :
    ReadAs (seq w v) (fun pool => q pool >>= r pool) y where
  keeps := first.keeps.bind fun _ => second.keeps.bind fun _ => keeps_pure _
  reads p final later offset := by
    -- the first piece has to be read in a pool that the second one has added to
    have between : (w p).2.Final final :=
      ⟨(second.keeps.grows (w p).2).trans later.le, later.small⟩
    exact (first.reads p final between offset).bind
      (second.reads (w p).2 final later _)

theorem map (g : α → β) (read : ReadAs w q x) :
    ReadAs w (fun pool => q pool >>= fun x => pure (g x)) (g x) where
  keeps := read.keeps
  reads p final later offset := (read.reads p final later offset).map g

theorem index {step : StateM PoolBuilder Nat}
    {get : ConstantPool → Nat → Except FormatError α}
    (found : Finds step get x) :
    ReadAs (index step) (fun pool => lookup (get pool)) x where
  keeps := found.keeps.bind fun _ => keeps_pure _
  reads p final later offset rest := by
    obtain ⟨small, here⟩ := found.finds p final later
    change lookup (get final.toPool)
      ⟨offset, Bytes.u2 (step p).1 ++ rest⟩ = _
    rw [lookup, bind_eq_of_ok (reads_u2 (step p).1 rest),
      toNat_ofNat_u2 small, here]
    rfl

theorem each_map {ι : Type} {items : List ι} {ws : ι → Writer} {g : ι → α}
    (each : ∀ i ∈ items, ReadAs (ws i) q (g i)) :
    List.Forall₂ (fun w x => ReadAs w q x) (items.map ws) (items.map g) := by
  rw [List.forall₂_map_left_iff, List.forall₂_map_right_iff, List.forall₂_same]
  exact each

/-- Several things are read by one parser that is run as often. -/
theorem all {ws : List Writer} {xs : List α}
    (each : List.Forall₂ (fun w x => ReadAs w q x) ws xs) :
    ReadAs (all ws) (fun pool => times (q pool) xs.length) xs := by
  induction each with
  | nil =>
      exact nothing []
  | cons first _ ih =>
      exact first.bind (ih.map _)

/-- A number that fits in two bytes is read, and what follows depends on it. -/
theorem number_bind {n : Nat} {r : ConstantPool → Nat → Parser β}
    (small : n ≤ 65535) (rest : ReadAs v (fun pool => r pool n) y) :
    ReadAs (seq (Writer.plain (Bytes.u2 n)) v)
      (fun pool => Parser.u2 >>= fun m => r pool m.toNat) y := by
  refine (u2 n).bind ?_
  rw [toNat_ofNat_u2 (Nat.lt_succ_of_le small)]
  exact rest

section Counted

variable {ws : List Writer} {xs : List α}
  (each : List.Forall₂ (fun w x => ReadAs w q x) ws xs)
  (few : xs.length ≤ 65535)
include each few

/-- A list is read with its length in front. -/
theorem counted :
    ReadAs (counted ws)
      (fun pool => Parser.u2 >>= fun n => times (q pool) n.toNat) xs := by
  rw [Writer.counted, each.length_eq]
  exact number_bind (r := fun pool n => times (q pool) n) few
    (ReadAs.all each)

/-- A list is read with its length in front, and something is made of it. -/
theorem counted_map (g : List α → β) :
    ReadAs (Writer.counted ws)
      (fun pool => Parser.u2 >>= fun n =>
        times (q pool) n.toNat >>= fun xs => pure (g xs)) (g xs) := by
  rw [Writer.counted, each.length_eq]
  exact number_bind
    (r := fun pool n => times (q pool) n >>= fun xs => pure (g xs)) few
    ((ReadAs.all each).map g)

/-- After a list with its length, something else is read. -/
theorem counted_bind {r : ConstantPool → List α → Parser β}
    (rest : ReadAs v (fun pool => r pool xs) y) :
    ReadAs (seq (Writer.counted ws) v)
      (fun pool => Parser.u2 >>= fun n =>
        times (q pool) n.toNat >>= r pool) y := by
  rw [Writer.counted, each.length_eq, seq_assoc]
  exact number_bind (r := fun pool n => times (q pool) n >>= r pool) few
    ((ReadAs.all each).bind rest)

end Counted

end ReadAs
end NativeGlue
