import Mathlib.Data.List.Forall2
import Mathlib.Data.List.Infix
import Mathlib.Data.Nat.Digits.Defs
import NativeGlue.Proofs.ClassFile.Forms

/-!
# Cursors stay in their windows

Operations act on the top of a stack of cursors over one byte string. Each
cursor has a window, which ends where the whole input ends or where the bytes
end that it was split off with. What is left for a cursor is always the input
from its offset to the end of its window.

What one operation does is said once, for every stack: it succeeds just if as
many bytes are left as it takes, and else changes nothing. The invariant of a
run follows from this.

Main statement: `run_keepsWindows`.
-/

namespace NativeGlue
namespace Cursor

/-- How many bytes an operation takes. -/
def Step.size : Step → Nat
  | .u1 => 1
  | .u2 => 2
  | .u4 => 4
  | .u8 => 8
  | .bytes n => n
  | .skip n => n
  | .window n => n
  | .pop => 0

/-- The number whose digits to the base 256 are bytes, the highest first. -/
def number (bs : List UInt8) : Nat :=
  Nat.ofDigits 256 (bs.reverse.map UInt8.toNat)

/-- What an operation gives for the bytes that it takes. -/
def Step.Gives : Step → List UInt8 → Value → Prop
  | .u1, bs, .number n => n = number bs
  | .u2, bs, .number n => n = number bs
  | .u4, bs, .number n => n = number bs
  | .u8, bs, .word w => w.toNat = number bs
  | .bytes _, bs, .bytes read => read = bs
  | .skip _, _, .nothing => True
  | .window _, _, .nothing => True
  | .pop, _, .nothing => True
  | _, _, _ => False

/-- The cursor behind the next `n` bytes. -/
def advance (c : Cursor) (n : Nat) : Cursor :=
  ⟨c.offset + n, c.rest.drop n⟩

/-- The cursor over the next `n` bytes alone. -/
def front (c : Cursor) (n : Nat) : Cursor :=
  ⟨c.offset, c.rest.take n⟩

/--
What is left for a cursor is the input from its offset to the end of its
window.
-/
structure StandsIn (input : List UInt8) (c : Cursor) (stop : Nat) : Prop where
  start_le : c.offset ≤ stop
  stop_le : stop ≤ input.length
  rest : c.rest = (input.drop c.offset).take (stop - c.offset)

section Numbers

theorem number_concat (bs : List UInt8) (b : UInt8) :
    number (bs ++ [b]) = b.toNat + 256 * number bs := by
  simp [number, Nat.ofDigits_cons]

theorem bigEndian_eq_number (bs : List UInt8) : bigEndian bs = number bs := by
  induction bs using List.reverseRecOn with
  | nil => rfl
  | append_singleton bs b ih =>
      rw [bigEndian_concat, number_concat, ih]
      omega

theorem number_lt (bs : List UInt8) : number bs < 256 ^ bs.length := by
  rw [← bigEndian_eq_number]
  exact bigEndian_lt bs

end Numbers

section Windows

variable {input : List UInt8} {c : Cursor} {stop n : Nat}

theorem standsIn_ofBytes (input : List UInt8) :
    (ofBytes input).StandsIn input input.length where
  start_le := Nat.zero_le _
  stop_le := le_rfl
  rest := (List.take_length (l := input)).symm

theorem StandsIn.remaining (stands : c.StandsIn input stop) :
    c.remaining = stop - c.offset := by
  have inside := stands.stop_le
  rw [Cursor.remaining, stands.rest, List.length_take, List.length_drop]
  omega

/-- What a cursor takes are the bytes of the input at its offset. -/
theorem StandsIn.take_rest (stands : c.StandsIn input stop)
    (fits : n ≤ c.remaining) :
    c.rest.take n = (input.drop c.offset).take n := by
  rw [stands.remaining] at fits
  rw [stands.rest, List.take_take, Nat.min_eq_left fits]

theorem StandsIn.advance (stands : c.StandsIn input stop)
    (fits : n ≤ c.remaining) : (c.advance n).StandsIn input stop where
  start_le := by
    have before := stands.start_le
    rw [stands.remaining] at fits
    change c.offset + n ≤ stop
    omega
  stop_le := stands.stop_le
  rest := by
    change c.rest.drop n =
      (input.drop (c.offset + n)).take (stop - (c.offset + n))
    rw [stands.rest, List.drop_take, List.drop_drop, Nat.sub_sub]

theorem StandsIn.front (stands : c.StandsIn input stop)
    (fits : n ≤ c.remaining) :
    (c.front n).StandsIn input (c.offset + n) where
  start_le := Nat.le_add_right _ _
  stop_le := (stands.advance fits).start_le.trans stands.stop_le
  rest := by
    change c.rest.take n = (input.drop c.offset).take (c.offset + n - c.offset)
    rw [stands.take_rest fits, Nat.add_sub_cancel_left]

end Windows

namespace Stack

/-- The cursors of a stack, the top first. -/
def cursors (s : Stack) : List Cursor := s.top :: s.below

/-- The stack after an operation for which there are enough bytes. -/
def after (s : Stack) : Step → Stack
  | .window n => ⟨s.top.front n, s.top.advance n :: s.below⟩
  | .pop =>
      match s.below with
      | [] => s
      | outer :: below => ⟨outer, below⟩
  | op => ⟨s.top.advance op.size, s.below⟩

/-- What an operation gives, with the stack on which the next one acts. -/
def attempt (s : Stack) (op : Step) : Except FormatError Value × Stack :=
  match s.step op with
  | .ok (value, next) => (.ok value, next)
  | .error e => (.error e, s)

/-- The stack after some operations, also if some of them fail. -/
def run (s : Stack) (ops : List Step) : Stack :=
  ops.foldl (fun s op => (s.attempt op).2) s

/-- The ends of the windows of a stack after an operation. -/
def endsAfter (s : Stack) (ends : List Nat) : Step → List Nat
  | .window n =>
      if n ≤ s.top.remaining then (s.top.offset + n) :: ends else ends
  | .pop => if s.below.isEmpty then ends else ends.tail
  | _ => ends

/-- The ends of the windows of a stack after some operations. -/
def endsAfterAll (s : Stack) (ends : List Nat) : List Step → List Nat
  | [] => ends
  | op :: ops => endsAfterAll (s.attempt op).2 (s.endsAfter ends op) ops

section OneStep

variable {s : Stack} {op : Step}

theorem bytes_of_fits {c : Cursor} {n : Nat} (fits : n ≤ c.remaining) :
    Parser.bytes n c = .ok (c.rest.take n, c.advance n) := by
  have split : splitExact n c.rest = some (c.rest.take n, c.rest.drop n) :=
    splitExact_eq_some_iff.mpr
      ⟨List.length_take_of_le fits, (List.take_append_drop _ _).symm⟩
  rw [Parser.bytes, split]
  rfl

theorem bytes_of_short {c : Cursor} {n : Nat} (short : c.remaining < n) :
    Parser.bytes n c = .error (.truncated c.offset n) := by
  rw [Parser.bytes, Parser.splitExact_eq_none short]

theorem read_of_fits {α : Type} {n : Nat} (make : List UInt8 → α)
    (value : α → Value) (fits : n ≤ s.top.remaining) :
    s.read (Parser.bytes n >>= fun bs => pure (make bs)) value =
      .ok (value (make (s.top.rest.take n)), ⟨s.top.advance n, s.below⟩) := by
  rw [read, Parser.bind_eq_of_ok (bytes_of_fits fits)]
  rfl

theorem read_of_short {α : Type} {n : Nat} (make : List UInt8 → α)
    (value : α → Value) (short : s.top.remaining < n) :
    s.read (Parser.bytes n >>= fun bs => pure (make bs)) value =
      .error (.truncated s.top.offset n) := by
  rw [read, Parser.bind_eq_of_error (bytes_of_short short)]

/-- The number of some bytes that are left fits a word of so many bytes. -/
theorem bigEndian_take {c : Cursor} {n : Nat} (fits : n ≤ c.remaining) :
    bigEndian (c.rest.take n) % 256 ^ n = number (c.rest.take n) := by
  have small := number_lt (c.rest.take n)
  rw [List.length_take_of_le fits] at small
  rw [bigEndian_eq_number, Nat.mod_eq_of_lt small]

/-- With enough bytes an operation succeeds and takes them. -/
theorem step_of_fits (fits : op.size ≤ s.top.remaining) :
    ∃ value, op.Gives (s.top.rest.take op.size) value ∧
      s.step op = .ok (value, s.after op) := by
  cases op with
  | u1 =>
      refine ⟨_, ?_, read_of_fits _ _ fits⟩
      exact UInt8.toNat_ofNat'.trans (bigEndian_take fits)
  | u2 =>
      refine ⟨_, ?_, read_of_fits _ _ fits⟩
      exact UInt16.toNat_ofNat'.trans (bigEndian_take fits)
  | u4 =>
      refine ⟨_, ?_, read_of_fits _ _ fits⟩
      exact UInt32.toNat_ofNat'.trans (bigEndian_take fits)
  | u8 =>
      refine ⟨_, ?_, read_of_fits _ _ fits⟩
      exact UInt64.toNat_ofNat'.trans (bigEndian_take fits)
  | bytes n =>
      refine ⟨.bytes (s.top.rest.take n), rfl, ?_⟩
      rw [step, read, bytes_of_fits (n := n) fits]
      rfl
  | skip n => exact ⟨.nothing, trivial, read_of_fits _ _ fits⟩
  | window n =>
      have opened : Parser.window n s.top =
          .ok (s.top.front n, s.top.advance n) := by
        change (Parser.bytes n >>= fun bs => pure _) s.top = _
        rw [Parser.bind_eq_of_ok (bytes_of_fits (n := n) fits)]
        rfl
      refine ⟨.nothing, trivial, ?_⟩
      rw [step, opened]
      rfl
  | pop =>
      refine ⟨.nothing, trivial, ?_⟩
      rw [step, after]
      cases s.below <;> rfl

/-- With too few bytes it fails, and says where and how many it takes. -/
theorem step_of_short (short : s.top.remaining < op.size) :
    s.step op = .error (.truncated s.top.offset op.size) := by
  cases op with
  | u1 => exact read_of_short _ _ short
  | u2 => exact read_of_short _ _ short
  | u4 => exact read_of_short _ _ short
  | u8 => exact read_of_short _ _ short
  | bytes n =>
      rw [step, read, bytes_of_short (n := n) short]
      rfl
  | skip n => exact read_of_short _ _ short
  | window n =>
      have failed : Parser.window n s.top =
          .error (.truncated s.top.offset n) := by
        change (Parser.bytes n >>= fun bs => pure _) s.top = _
        rw [Parser.bind_eq_of_error (bytes_of_short (n := n) short)]
      rw [step, failed]
      rfl
  | pop => exact absurd short (Nat.not_lt_zero _)

theorem attempt_of_fits (fits : op.size ≤ s.top.remaining) :
    (s.attempt op).2 = s.after op := by
  obtain ⟨value, -, eq⟩ := step_of_fits fits
  rw [attempt, eq]

theorem attempt_of_short (short : s.top.remaining < op.size) :
    s.attempt op = (.error (.truncated s.top.offset op.size), s) := by
  rw [attempt, step_of_short short]

end OneStep

/-- What an operation on a stack over an input gives, and what it changes. -/
structure Performs (input : List UInt8) (s : Stack) (op : Step) : Prop where
  /-- It succeeds just if as many bytes are left as it takes. -/
  succeeds_iff : (∃ value next, s.step op = .ok (value, next)) ↔
    op.size ≤ s.top.remaining
  /-- Then it gives what these bytes of the input are, and passes over them. -/
  gives : ∀ value next, s.step op = .ok (value, next) →
    op.Gives ((input.drop s.top.offset).take op.size) value ∧
      next = s.after op
  /-- Else it says where it stands and what it takes, and changes nothing. -/
  fails : s.top.remaining < op.size →
    s.attempt op = (.error (.truncated s.top.offset op.size), s)

/-- Each cursor of a stack over an input stands in a window of its own. -/
structure KeepsWindows (input : List UInt8) (s : Stack) (ends : List Nat) :
    Prop where
  standsIn : List.Forall₂ (StandsIn input) s.cursors ends
  /-- A cursor that is not the top stands where the window above it ends. -/
  behind : s.below.map Cursor.offset = ends.dropLast

section Runs

variable {input : List UInt8} {s : Stack} {ends : List Nat} {op : Step}

theorem keepsWindows_ofBytes (input : List UInt8) :
    (ofBytes input).KeepsWindows input [input.length] where
  standsIn := .cons (standsIn_ofBytes input) .nil
  behind := rfl

theorem KeepsWindows.exists_eq_cons (keeps : s.KeepsWindows input ends) :
    ∃ stop others, ends = stop :: others ∧ s.top.StandsIn input stop ∧
      List.Forall₂ (StandsIn input) s.below others := by
  obtain ⟨stop, others, first, rest, rfl⟩ :=
    List.forall₂_cons_left_iff.mp keeps.standsIn
  exact ⟨stop, others, rfl, first, rest⟩

/-- What is read at the top are the bytes of the input at its offset. -/
theorem KeepsWindows.performs (keeps : s.KeepsWindows input ends)
    (op : Step) : s.Performs input op where
  succeeds_iff := by
    constructor
    · rintro ⟨value, next, eq⟩
      by_contra short
      rw [step_of_short (by omega)] at eq
      cases eq
    · intro fits
      obtain ⟨value, -, eq⟩ := step_of_fits fits
      exact ⟨value, _, eq⟩
  gives value next eq := by
    obtain ⟨stop, -, -, stands, -⟩ := keeps.exists_eq_cons
    by_cases fits : op.size ≤ s.top.remaining
    · obtain ⟨given, gives, eq'⟩ := step_of_fits fits
      rw [eq'] at eq
      cases eq
      rw [stands.take_rest fits] at gives
      exact ⟨gives, rfl⟩
    · rw [step_of_short (by omega)] at eq
      cases eq
  fails := attempt_of_short

theorem endsAfter_of_short (short : s.top.remaining < op.size) :
    s.endsAfter ends op = ends := by
  cases op with
  | window n => exact if_neg (Nat.not_le.mpr short)
  | pop => exact absurd short (Nat.not_lt_zero _)
  | _ => rfl

/-- Taking bytes at the top changes neither windows nor other cursors. -/
theorem KeepsWindows.advance (keeps : s.KeepsWindows input ends) {n : Nat}
    (fits : n ≤ s.top.remaining) :
    KeepsWindows input ⟨s.top.advance n, s.below⟩ ends where
  standsIn := by
    obtain ⟨stop, others, rfl, stands, rest⟩ := keeps.exists_eq_cons
    exact .cons (stands.advance fits) rest
  behind := keeps.behind

/-- A window is opened in front of a cursor that stands behind it. -/
theorem KeepsWindows.window (keeps : s.KeepsWindows input ends) {n : Nat}
    (fits : n ≤ s.top.remaining) :
    KeepsWindows input (s.after (.window n)) ((s.top.offset + n) :: ends) := by
  obtain ⟨stop, others, rfl, stands, rest⟩ := keeps.exists_eq_cons
  refine ⟨.cons (stands.front fits) (.cons (stands.advance fits) rest), ?_⟩
  rw [List.dropLast_cons_cons, ← keeps.behind]
  rfl

theorem KeepsWindows.pop (keeps : s.KeepsWindows input ends) :
    KeepsWindows input (s.after .pop) (s.endsAfter ends .pop) := by
  obtain ⟨stop, others, rfl, stands, rest⟩ := keeps.exists_eq_cons
  rw [after, endsAfter]
  cases below : s.below with
  | nil => exact keeps
  | cons outer below' =>
      rw [below] at rest
      refine ⟨rest, ?_⟩
      have behind := congrArg List.tail keeps.behind
      rwa [below, List.tail_dropLast] at behind

theorem KeepsWindows.step (keeps : s.KeepsWindows input ends) (op : Step) :
    (s.attempt op).2.KeepsWindows input (s.endsAfter ends op) := by
  by_cases fits : op.size ≤ s.top.remaining
  · rw [attempt_of_fits fits]
    cases op with
    | window n =>
        rw [endsAfter, if_pos (show n ≤ _ from fits)]
        exact keeps.window fits
    | pop => exact keeps.pop
    | _ => exact keeps.advance fits
  · rw [attempt_of_short (by omega), endsAfter_of_short (by omega)]
    exact keeps

theorem KeepsWindows.run (keeps : s.KeepsWindows input ends)
    (ops : List Step) :
    (s.run ops).KeepsWindows input (s.endsAfterAll ends ops) := by
  induction ops generalizing s ends with
  | nil => exact keeps
  | cons op ops ih => exact ih (keeps.step op)

theorem run_concat (s : Stack) (ops : List Step) (op : Step) :
    s.run (ops ++ [op]) = ((s.run ops).attempt op).2 := by
  rw [Stack.run, List.foldl_append]
  rfl

/-- As long as they are not dropped, cursors below the top stay as they are. -/
theorem exists_below_run {base : List Cursor} {ops : List Step}
    (below : ∃ above, s.below = above ++ base)
    (kept : ∀ front, front <+: ops →
      base.length ≤ (s.run front).below.length) :
    ∃ above, (s.run ops).below = above ++ base := by
  induction ops using List.reverseRecOn with
  | nil => exact below
  | append_singleton ops op ih =>
      obtain ⟨above, eq⟩ := ih fun front within =>
        kept front (within.trans (List.prefix_append _ _))
      have long := kept _ List.prefix_rfl
      rw [run_concat] at long ⊢
      by_cases fits : op.size ≤ (s.run ops).top.remaining
      · rw [attempt_of_fits fits] at long ⊢
        cases op with
        | window n => exact ⟨_ :: above, congrArg (_ :: ·) eq⟩
        | pop =>
            rw [after] at long ⊢
            cases above with
            | nil =>
                -- There is nothing to drop but cursors of `base`.
                cases base with
                | nil => exact ⟨_, (List.append_nil _).symm⟩
                | cons outer base =>
                    rw [eq] at long
                    simp at long
            | cons outer above =>
                rw [eq]
                exact ⟨above, rfl⟩
        | _ => exact ⟨above, eq⟩
      · rw [attempt_of_short (by omega)]
        exact ⟨above, eq⟩

end Runs

/--
Let any operations be carried out on a stack over a byte string. Then what is
left for each cursor is the input from its offset to the end of its window, and
a cursor that a window was split off from stands where that window ends.

The next operation succeeds just if as many bytes are left at the top as it
takes. Then it gives what they are, numbers with the highest byte first, and
moves past them; else it fails with the offset of the top and the number of
bytes, and changes nothing.

Operations on a window leave the cursor that it was split off from, and those
below, as they are until the window is dropped.
-/
theorem run_keepsWindows (input : List UInt8) (ops : List Step) :
    let s := (ofBytes input).run ops
    s.KeepsWindows input ((ofBytes input).endsAfterAll [input.length] ops) ∧
      (∀ op, s.Performs input op) ∧
      ∀ n inner, n ≤ s.top.remaining →
        (∀ front, front <+: inner → s.below.length <
          ((s.after (.window n)).run front).below.length) →
        ∃ above, ((s.after (.window n)).run inner).below =
          above ++ ⟨s.top.offset + n, s.top.rest.drop n⟩ :: s.below := by
  intro s
  have keeps := (keepsWindows_ofBytes input).run ops
  exact ⟨keeps, keeps.performs, fun n inner _ kept =>
    exists_below_run ⟨[], rfl⟩ kept⟩

/-- A number is read in a window of two bytes, and then there are too few. -/
theorem run_keepsWindows_nested :
    let s := (ofBytes [1, 2, 3, 4, 5, 6]).run [.skip 2]
    2 ≤ s.top.remaining ∧
      (∀ front, front <+: [Step.u1, .u2] → s.below.length <
        ((s.after (.window 2)).run front).below.length) ∧
      ((s.after (.window 2)).run [.u1, .u2]).top = ⟨3, [4]⟩ ∧
      ∃ above, ((s.after (.window 2)).run [.u1, .u2]).below =
        above ++ [⟨4, [5, 6]⟩] := by
  have kept : ∀ front ∈ [Step.u1, .u2].inits,
      0 < (((Stack.mk ⟨2, [3, 4, 5, 6]⟩ []).after (.window 2)).run
        front).below.length := by
    decide
  refine ⟨by decide, fun front within => ?_, by decide, ?_⟩
  · exact kept front ((List.mem_inits ..).mpr within)
  · exact (run_keepsWindows [1, 2, 3, 4, 5, 6] [.skip 2]).2.2 2 [.u1, .u2]
      (by decide) fun front within => kept front ((List.mem_inits ..).mpr within)

end Stack
end Cursor
end NativeGlue
