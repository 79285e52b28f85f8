import NativeGlue.ClassFile.Cursor

/-!
# What a parser reads

A parser reads some bytes as a value if it takes these bytes and no others,
whatever follows them. Parsers that are run one after another read one piece
after another.
-/

namespace NativeGlue
namespace Parser

variable {α β : Type} {p : Parser α} {f : α → Parser β} {c c' : Cursor}
  {x : α}

theorem bind_eq_of_ok (read : p c = .ok (x, c')) :
    (p >>= f) c = f x c' := by
  change (p c >>= fun r => f r.1 r.2) = _
  rw [read]
  rfl

theorem bind_eq_of_error {e : FormatError} (failed : p c = .error e) :
    (p >>= f) c = .error e := by
  change (p c >>= fun r => f r.1 r.2) = _
  rw [failed]
  rfl

theorem bind_eq_ok_iff {r : β × Cursor} :
    (p >>= f) c = .ok r ↔
      ∃ x c', p c = .ok (x, c') ∧ f x c' = .ok r := by
  cases read : p c with
  | error e =>
      rw [bind_eq_of_error read]
      simp
  | ok first =>
      obtain ⟨x, c'⟩ := first
      rw [bind_eq_of_ok read]
      constructor
      · intro rest
        exact ⟨x, c', rfl, rest⟩
      · rintro ⟨_, _, ⟨⟩, rest⟩
        exact rest

/-- Where the cursor has the offset, `used` is read as `x`. -/
def Reads (p : Parser α) (offset : Nat) (used : List UInt8) (x : α) : Prop :=
  ∀ rest, p ⟨offset, used ++ rest⟩ = .ok (x, ⟨offset + used.length, rest⟩)

variable {offset : Nat} {used used' : List UInt8} {y : β}

theorem reads_pure (x : α) : Reads (pure x) offset [] x :=
  fun _ => rfl

theorem Reads.bind (first : Reads p offset used x)
    (second : Reads (f x) (offset + used.length) used' y) :
    Reads (p >>= f) offset (used ++ used') y := by
  intro rest
  rw [List.append_assoc, bind_eq_of_ok (first (used' ++ rest)), second rest,
    List.length_append, Nat.add_assoc]

/-- A value is read, and something else is made of it. -/
theorem Reads.map (g : α → β) (read : Reads p offset used x) :
    Reads (p >>= fun x => pure (g x)) offset used (g x) := by
  have both := read.bind (f := fun x => pure (g x)) (reads_pure (g x))
  rwa [List.append_nil] at both

/-- A parser may ask for its position first. -/
theorem Reads.position_bind {f : Nat → Parser β}
    (read : Reads (f offset) offset used y) :
    Reads (position >>= f) offset used y :=
  fun rest => read rest

theorem splitExact_length_append {α : Type} (front back : List α) :
    splitExact front.length (front ++ back) = some (front, back) :=
  splitExact_eq_some_iff.mpr ⟨rfl, rfl⟩

theorem splitExact_eq_none {α : Type} {n : Nat} {xs : List α}
    (short : xs.length < n) : splitExact n xs = none := by
  cases found : splitExact n xs with
  | none => rfl
  | some parts =>
      obtain ⟨long, rfl⟩ := splitExact_eq_some_iff.mp found
      rw [List.length_append] at short
      omega

theorem reads_bytes (used : List UInt8) :
    Reads (bytes used.length) offset used used := by
  intro rest
  rw [bytes, splitExact_length_append]

theorem reads_window (used : List UInt8) :
    Reads (window used.length) offset used ⟨offset, used⟩ := by
  exact Reads.position_bind ((reads_bytes used).map (Cursor.mk offset))

end Parser
end NativeGlue
