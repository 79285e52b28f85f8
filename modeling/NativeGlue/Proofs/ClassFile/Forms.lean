import Mathlib.Algebra.GroupWithZero.Nat
import Mathlib.Data.List.Induction
import NativeGlue.Proofs.ClassFile.Reading

/-!
# What a parser accepts

A form says which bytes stand for a value. A parser accepts a form if it reads
all bytes of this form as their value, whatever follows them, and reads no
others. Parsers that are run one after another accept what is put together from
their forms. Numbers in the class format are words of a fixed width, the most
significant byte first.
-/

namespace NativeGlue

/-- The last `width` bytes of a number, the most significant one first. -/
def Bytes.ofNumber : Nat → Nat → List UInt8
  | 0, _ => []
  | width + 1, n => ofNumber width (n / 256) ++ [UInt8.ofNat n]

theorem Bytes.length_ofNumber (width n : Nat) :
    (ofNumber width n).length = width := by
  induction width generalizing n with
  | zero => rfl
  | succ width ih => simp [ofNumber, ih]

namespace Cursor

theorem bigEndian_concat (bs : List UInt8) (b : UInt8) :
    bigEndian (bs ++ [b]) = bigEndian bs * 256 + b.toNat := by
  simp [bigEndian]

theorem bigEndian_lt (bs : List UInt8) : bigEndian bs < 256 ^ bs.length := by
  induction bs using List.reverseRecOn with
  | nil => decide
  | append_singleton bs b ih =>
      have last := b.toNat_lt
      rw [bigEndian_concat, List.length_append, List.length_singleton,
        Nat.pow_succ]
      omega

theorem bigEndian_ofNumber (width n : Nat) :
    bigEndian (Bytes.ofNumber width n) = n % 256 ^ width := by
  induction width generalizing n with
  | zero =>
      rw [Nat.pow_zero, Nat.mod_one]
      rfl
  | succ width ih =>
      have split : n % 256 ^ (width + 1) =
          n % 256 + 256 * (n / 256 % 256 ^ width) := by
        rw [Nat.pow_succ', Nat.mod_mul]
      rw [Bytes.ofNumber, bigEndian_concat, ih, UInt8.toNat_ofNat', split]
      omega

/-- Bytes are determined by their number and its width. -/
theorem ofNumber_bigEndian (bs : List UInt8) :
    Bytes.ofNumber bs.length (bigEndian bs) = bs := by
  induction bs using List.reverseRecOn with
  | nil => rfl
  | append_singleton bs b ih =>
      have last := b.toNat_lt
      have before : (bigEndian bs * 256 + b.toNat) / 256 = bigEndian bs := by
        omega
      have behind : UInt8.ofNat (bigEndian bs * 256 + b.toNat) = b := by
        rw [← UInt8.toNat_inj, UInt8.toNat_ofNat']
        omega
      rw [bigEndian_concat, List.length_append, List.length_singleton,
        Bytes.ofNumber, before, behind, ih]

end Cursor

namespace Parser

variable {α β : Type} {p : Parser α} {f : α → Parser β}
  {form form' : α → List UInt8 → Prop}

/-- A parser that reads the bytes of a form, and no others. -/
structure Accepts (p : Parser α) (form : α → List UInt8 → Prop) : Prop where
  sound : ∀ c x c', p c = .ok (x, c') → ∃ used, form x used ∧
    c.rest = used ++ c'.rest ∧ c'.offset = c.offset + used.length
  complete : ∀ offset used x, form x used → Reads p offset used x

theorem Accepts.congr (accepts : Accepts p form)
    (same : ∀ x used, form x used ↔ form' x used) : Accepts p form' where
  sound c x c' read := by
    obtain ⟨used, fits, rest⟩ := accepts.sound c x c' read
    exact ⟨used, (same x used).mp fits, rest⟩
  complete offset used x fits :=
    accepts.complete offset used x ((same x used).mpr fits)

theorem accepts_pure (x : α) :
    Accepts (pure x) fun y used => y = x ∧ used = [] where
  sound c y c' read := by
    cases read
    exact ⟨[], ⟨rfl, rfl⟩, rfl, rfl⟩
  complete offset used y fits := by
    obtain ⟨rfl, rfl⟩ := fits
    exact reads_pure y

theorem accepts_fail (e : FormatError) :
    Accepts (fail e : Parser α) fun _ _ => False where
  sound c x c' read := by cases read
  complete offset used x fits := fits.elim

/-- Parsers run one after another read one piece after another. -/
theorem Accepts.bind {next : α → β → List UInt8 → Prop}
    (first : Accepts p form) (second : ∀ x, Accepts (f x) (next x)) :
    Accepts (p >>= f) fun y used =>
      ∃ x a b, form x a ∧ next x y b ∧ used = a ++ b where
  sound c y c'' read := by
    obtain ⟨x, c', here, there⟩ := bind_eq_ok_iff.mp read
    obtain ⟨a, fits, front, moved⟩ := first.sound c x c' here
    obtain ⟨b, fits', back, moved'⟩ := (second x).sound c' y c'' there
    refine ⟨a ++ b, ⟨x, a, b, fits, fits', rfl⟩, ?_, ?_⟩
    · rw [front, back, List.append_assoc]
    · rw [moved', moved, List.length_append, Nat.add_assoc]
  complete offset used y fits := by
    obtain ⟨x, a, b, fits, fits', rfl⟩ := fits
    exact (first.complete offset a x fits).bind
      ((second x).complete _ b y fits')

/-- Something is made of what is read. -/
theorem Accepts.map (g : α → β) (accepts : Accepts p form) :
    Accepts (p >>= fun x => pure (g x)) fun y used =>
      ∃ x, form x used ∧ y = g x := by
  refine (accepts.bind fun x => accepts_pure (g x)).congr fun y used => ?_
  constructor
  · rintro ⟨x, a, b, fits, ⟨rfl, rfl⟩, rfl⟩
    exact ⟨x, by rwa [List.append_nil], rfl⟩
  · rintro ⟨x, fits, rfl⟩
    exact ⟨x, used, [], fits, ⟨rfl, rfl⟩, (List.append_nil _).symm⟩

/-- A parser may ask for its position first. -/
theorem Accepts.position_bind {f : Nat → Parser α}
    (accepts : ∀ offset, Accepts (f offset) form) :
    Accepts (position >>= f) form where
  sound c x c' read := (accepts c.offset).sound c x c' read
  complete offset used x fits :=
    Reads.position_bind ((accepts offset).complete offset used x fits)

theorem accepts_bytes (n : Nat) :
    Accepts (bytes n) fun bs used => used = bs ∧ bs.length = n where
  sound c bs c' read := by
    rw [bytes] at read
    split at read
    · rename_i front back found
      cases read
      obtain ⟨rfl, eq⟩ := splitExact_eq_some_iff.mp found
      exact ⟨bs, ⟨rfl, rfl⟩, eq, rfl⟩
    · cases read
  complete offset used bs fits := by
    obtain ⟨rfl, rfl⟩ := fits
    exact reads_bytes used

/-- A word is read from the bytes of its number. -/
theorem accepts_word {width : Nat} {toNat : α → Nat} {ofNat : Nat → α}
    (number : ∀ n < 256 ^ width, toNat (ofNat n) = n)
    (word : ∀ x, ofNat (toNat x) = x) (small : ∀ x, toNat x < 256 ^ width) :
    Accepts (bytes width >>= fun bs => pure (ofNat (Cursor.bigEndian bs)))
      fun x used => used = Bytes.ofNumber width (toNat x) := by
  refine ((accepts_bytes width).map fun bs =>
    ofNat (Cursor.bigEndian bs)).congr fun x used => ?_
  constructor
  · rintro ⟨bs, ⟨rfl, rfl⟩, rfl⟩
    rw [number _ (Cursor.bigEndian_lt used), Cursor.ofNumber_bigEndian]
  · rintro rfl
    refine ⟨_, ⟨rfl, Bytes.length_ofNumber _ _⟩, ?_⟩
    rw [Cursor.bigEndian_ofNumber, Nat.mod_eq_of_lt (small x), word]

theorem accepts_u1 : Accepts u1 fun x used => used = [x] := by
  have word : Accepts u1 fun x used => used = Bytes.ofNumber 1 x.toNat :=
    accepts_word (fun n small => by rw [UInt8.toNat_ofNat']; omega)
      (fun _ => UInt8.ofNat_toNat) UInt8.toNat_lt
  refine word.congr fun x used => ?_
  rw [Bytes.ofNumber, Bytes.ofNumber, List.nil_append, UInt8.ofNat_toNat]

theorem accepts_u2 :
    Accepts u2 fun x used => used = Bytes.ofNumber 2 x.toNat :=
  accepts_word (fun n small => by rw [UInt16.toNat_ofNat']; omega)
    (fun _ => UInt16.ofNat_toNat) UInt16.toNat_lt

theorem accepts_u4 :
    Accepts u4 fun x used => used = Bytes.ofNumber 4 x.toNat :=
  accepts_word (fun n small => by rw [UInt32.toNat_ofNat']; omega)
    (fun _ => UInt32.ofNat_toNat) UInt32.toNat_lt

theorem accepts_u8 :
    Accepts u8 fun x used => used = Bytes.ofNumber 8 x.toNat :=
  accepts_word (fun n small => by rw [UInt64.toNat_ofNat']; omega)
    (fun _ => UInt64.ofNat_toNat) UInt64.toNat_lt

end Parser
end NativeGlue
