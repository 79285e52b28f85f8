import NativeGlue.ClassFile.Attribute
import NativeGlue.Proofs.ClassFile.Reading

/-!
# What is read does not depend on the place

The contents of attributes are read by parsers that use their offset for
nothing but faults: on the same bytes, at whatever two places these stand,
both runs fail, or both take the same bytes as the same value. This holds of
taking bytes, and of parsers that are run one after another if it holds of
each.
-/

namespace NativeGlue
namespace Parser

variable {α β : Type} {p q : Parser α} {f g : α → Parser β}

/-- Two parsers that at any two places read the same, or both fail. -/
def Alike (p q : Parser α) : Prop :=
  ∀ m n bytes,
    (∃ x used rest, bytes = used ++ rest ∧
      p ⟨m, bytes⟩ = .ok (x, ⟨m + used.length, rest⟩) ∧
      q ⟨n, bytes⟩ = .ok (x, ⟨n + used.length, rest⟩)) ∨
    ∃ e e', p ⟨m, bytes⟩ = .error e ∧ q ⟨n, bytes⟩ = .error e'

theorem alike_pure (x : α) : Alike (pure x) (pure x) :=
  fun _ _ bytes => .inl ⟨x, [], bytes, rfl, rfl, rfl⟩

theorem alike_fail (e e' : FormatError) :
    Alike (fail e : Parser α) (fail e') :=
  fun _ _ _ => .inr ⟨e, e', rfl, rfl⟩

/-- What is read at one place is read at any other. -/
theorem Alike.ok_at {m : Nat} {bytes : List UInt8} {x : α} {c : Cursor}
    (alike : Alike p p) (read : p ⟨m, bytes⟩ = .ok (x, c)) (n : Nat) :
    ∃ used, bytes = used ++ c.rest ∧
      p ⟨n, bytes⟩ = .ok (x, ⟨n + used.length, c.rest⟩) := by
  rcases alike m n bytes with
    ⟨y, used, rest, split, here, there⟩ | ⟨e, e', here, there⟩
  · rw [here] at read
    cases read
    exact ⟨used, split, there⟩
  · rw [here] at read
    cases read

theorem Alike.bind (first : Alike p q) (second : ∀ x, Alike (f x) (g x)) :
    Alike (p >>= f) (q >>= g) := by
  intro m n bytes
  rcases first m n bytes with
    ⟨x, used, rest, rfl, here, there⟩ | ⟨e, e', here, there⟩
  · rw [bind_eq_of_ok here, bind_eq_of_ok there]
    rcases second x (m + used.length) (n + used.length) rest with
      ⟨y, used', rest', rfl, here', there'⟩ | failed
    · refine .inl ⟨y, used ++ used', rest', (List.append_assoc _ _ _).symm,
        ?_, ?_⟩
      · rw [here', List.length_append, Nat.add_assoc]
      · rw [there', List.length_append, Nat.add_assoc]
    · exact .inr failed
  · exact .inr ⟨e, e', bind_eq_of_error here, bind_eq_of_error there⟩

theorem Alike.map (make : α → β) (alike : Alike p q) :
    Alike (p >>= fun x => pure (make x)) (q >>= fun x => pure (make x)) :=
  alike.bind fun x => alike_pure (make x)

/-- The position may be used where it does not matter. -/
theorem Alike.position_bind {f g : Nat → Parser β}
    (alike : ∀ m n, Alike (f m) (g n)) :
    Alike (position >>= f) (position >>= g) :=
  fun m n bytes => alike m n m n bytes

theorem alike_bytes (n : Nat) : Alike (bytes n) (bytes n) := by
  intro m m' input
  rw [bytes, bytes]
  cases found : splitExact n input with
  | some parts =>
      obtain ⟨front, back⟩ := parts
      obtain ⟨rfl, rfl⟩ := splitExact_eq_some_iff.mp found
      exact .inl ⟨front, front, back, rfl, rfl, rfl⟩
  | none =>
      exact .inr ⟨_, _, rfl, rfl⟩

theorem alike_u1 : Alike u1 u1 :=
  (alike_bytes 1).map _

theorem alike_u2 : Alike u2 u2 :=
  (alike_bytes 2).map _

theorem Alike.times (each : Alike p q) (n : Nat) :
    Alike (p.times n) (q.times n) := by
  induction n with
  | zero =>
      exact alike_pure []
  | succ n ih =>
      exact each.bind fun x => ih.map (x :: ·)

theorem alike_lookup (get : Nat → Except FormatError α) :
    Alike (lookup get) (lookup get) := by
  refine alike_u2.bind fun index => ?_
  cases get index.toNat with
  | ok x => exact alike_pure x
  | error e => exact alike_fail e e

end Parser

open NativeGlue.Parser

namespace Annotation

variable (pool : ConstantPool) (visible : Bool)

theorem alike_readParts {value : Parser ElementValue}
    (alike : Alike value value) :
    Alike (readParts pool value) (readParts pool value) := by
  have element (name : String) := alike.map fun v => (name, v)
  exact (alike_lookup _).bind fun type => alike_u2.bind fun count =>
    (((alike_lookup _).bind element).times count.toNat).map _

/-- The offset of a value is used where its tag is not known. -/
theorem alike_readTagged {inner : Parser ElementValue}
    (alike : Alike inner inner) (m n : Nat) (tag : Char) :
    Alike (readTagged pool visible inner m tag)
      (readTagged pool visible inner n tag) := by
  unfold readTagged
  split
  case h_1 | h_2 | h_3 | h_4 | h_5 | h_6 | h_7 | h_8 | h_9 | h_11 =>
    exact (alike_lookup _).map _
  case h_10 =>
    exact (alike_lookup _).bind fun type => (alike_lookup _).map _
  case h_12 =>
    exact (alike_readParts pool alike).map _
  case h_13 =>
    exact alike_u2.bind fun count => (alike.times count.toNat).map _
  case h_14 =>
    exact alike_fail _ _

theorem alike_readValue (budget : Nat) :
    Alike (readValue pool visible budget) (readValue pool visible budget) := by
  induction budget with
  | zero =>
      exact Alike.position_bind fun m n => alike_fail _ _
  | succ budget ih =>
      exact Alike.position_bind fun m n => alike_u1.bind fun tag =>
        alike_readTagged pool visible ih m n _

theorem alike_read : Alike (read pool visible) (read pool visible) :=
  (alike_readParts pool (alike_readValue pool visible maxDepth)).bind
    fun (_, _) => alike_pure _

theorem alike_readAll : Alike (readAll pool visible) (readAll pool visible) :=
  alike_u2.bind fun count => (alike_read pool visible).times count.toNat

theorem alike_readParameters :
    Alike (readParameters pool visible) (readParameters pool visible) :=
  alike_u1.bind fun count => (alike_readAll pool visible).times count.toNat

end Annotation

namespace AttributeKind

open Annotation

/-- What an attribute holds is read alike wherever it stands. -/
theorem alike_readBody (pool : ConstantPool) (kind : AttributeKind) :
    Alike (kind.readBody pool) (kind.readBody pool) := by
  cases kind with
  | annotations visible =>
      exact (alike_readAll pool visible).map _
  | parameterAnnotations visible =>
      exact (alike_readParameters pool visible).map _
  | sourceFile =>
      exact (alike_lookup _).map _

end AttributeKind
end NativeGlue
