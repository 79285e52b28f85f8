import Mathlib.Data.List.Nodup
import Mathlib.Data.List.Range
import NativeGlue.Stub.Audit
import NativeGlue.Stub.Lowering
import NativeGlue.Proofs.Mapping.Basic

/-!
# Lowered stubs are balanced

The body of a lowered stub is followed part by part. Before the call every
part goes on in a single state, in which the slots acquired so far are held;
what the parts note are exits on which nothing is held. The call is reached
with every argument acquired and the owned objects handed on. From there
control leaves by the result, or by one of two handlers.

Main statement: `audit_eq_of_body`, the exact list of the ways out of a stub
with a lowered body, on none of which anything leaks.
-/

namespace NativeGlue
namespace Stub

/-! ## Following a body from one state -/

section Following

variable {guarded : Bool}

/-- An outcome before which findings are noted. -/
def Outcome.noting (fs : List Finding) (o : Outcome) : Outcome :=
  { o with findings := fs ++ o.findings }

@[simp] theorem Stmt.runAll_nil (states : List PathState) :
    Stmt.runAll guarded [] states = ⟨states, [], []⟩ := rfl

@[simp] theorem Outcome.andThen_pass (state : PathState)
    (run : List PathState → Outcome) :
    (Outcome.pass state).andThen run = run [state] := by
  simp [Outcome.andThen, Outcome.pass]

theorem Outcome.andThen_assoc (o : Outcome)
    (run run' : List PathState → Outcome) :
    (o.andThen run).andThen run' =
      o.andThen fun states => (run states).andThen run' := by
  simp [Outcome.andThen, List.append_assoc]

theorem Stmt.runAll_append (a b : List Stmt) (states : List PathState) :
    Stmt.runAll guarded (a ++ b) states =
      (Stmt.runAll guarded a states).andThen (Stmt.runAll guarded b) := by
  induction a generalizing states with
  | nil =>
      simp [Stmt.runAll, Outcome.andThen]
  | cons s a ih =>
      have step : Stmt.runAll guarded (a ++ b) = fun states =>
          (Stmt.runAll guarded a states).andThen (Stmt.runAll guarded b) :=
        funext ih
      rw [List.cons_append, Stmt.runAll, Stmt.runAll, step,
        Outcome.andThen_assoc]

/-- From a single state, a block runs its first statement and then the rest. -/
theorem Stmt.runAll_cons (s : Stmt) (rest : List Stmt) (state : PathState) :
    Stmt.runAll guarded (s :: rest) [state] =
      (s.run guarded state).andThen (Stmt.runAll guarded rest) := by
  simp [Stmt.runAll, Outcome.ofStates, Outcome.append, Outcome.none]

theorem Stmt.runAll_ret (value : ReturnValue) (exit : Exit)
    (state : PathState) :
    Stmt.runAll guarded [.ret value exit] [state] =
      ⟨[], [], [.exit (state.leave exit)]⟩ := by
  simp [Stmt.runAll_cons, Stmt.run, Outcome.andThen]

theorem Stmt.runAll_cons_of_eq {s : Stmt} {σ τ : PathState}
    {fs : List Finding} (h : s.run guarded σ = ⟨[τ], [], fs⟩)
    (rest : List Stmt) :
    Stmt.runAll guarded (s :: rest) [σ] =
      (Stmt.runAll guarded rest [τ]).noting fs := by
  rw [Stmt.runAll_cons, h]
  simp [Outcome.andThen, Outcome.noting]

/-- What follows a statement that goes on in a single state, quietly. -/
theorem Stmt.runAll_cons_of_eq_pass {s : Stmt} {σ τ : PathState}
    (h : s.run guarded σ = .pass τ) (rest : List Stmt) :
    Stmt.runAll guarded (s :: rest) [σ] = Stmt.runAll guarded rest [τ] := by
  rw [Stmt.runAll_cons, h, Outcome.andThen_pass]

theorem Stmt.runAll_append_of_eq {a : List Stmt} {σ τ : PathState}
    {fs : List Finding} (h : Stmt.runAll guarded a [σ] = ⟨[τ], [], fs⟩)
    (b : List Stmt) :
    Stmt.runAll guarded (a ++ b) [σ] =
      (Stmt.runAll guarded b [τ]).noting fs := by
  rw [Stmt.runAll_append, h]
  simp [Outcome.andThen, Outcome.noting]

/-- What follows a part that goes on in a single state and notes nothing. -/
theorem Stmt.runAll_append_of_eq_pass {a : List Stmt} {σ τ : PathState}
    (h : Stmt.runAll guarded a [σ] = .pass τ) (b : List Stmt) :
    Stmt.runAll guarded (a ++ b) [σ] = Stmt.runAll guarded b [τ] := by
  rw [Stmt.runAll_append, h, Outcome.andThen_pass]

end Following

end Stub

namespace Lowering

open Stub

variable {guarded : Bool}

/-! ## Parts of a lowered body -/

/-- Releasing all slots that are held, the latest first, leaves none. -/
theorem runAll_releaseAll (mode : ReleaseMode) {slots : List Nat}
    (nodup : slots.Nodup) (acquired released transferred : Nat) :
    Stmt.runAll guarded (releaseAll mode slots)
        [⟨slots, acquired, released, transferred⟩] =
      .pass ⟨[], acquired, released + slots.length, transferred⟩ := by
  induction slots using List.reverseRecOn generalizing released with
  | nil =>
      rfl
  | append_singleton slots slot ih =>
      have fresh : slot ∉ slots := by
        have := List.nodup_append.mp nodup
        aesop
      have rest : slots.Nodup := (List.nodup_append.mp nodup).1
      have split : releaseAll mode (slots ++ [slot]) =
          .release slot mode :: releaseAll mode slots := by
        simp [releaseAll]
      have first : (Stmt.release slot mode).run guarded
          ⟨slots ++ [slot], acquired, released, transferred⟩ =
            .pass ⟨slots, acquired, released + 1, transferred⟩ := by
        simp [Stmt.run, PathState.release, List.erase_append_right, fresh]
      rw [split, Stmt.runAll_cons, first, Outcome.andThen_pass, ih rest]
      simp only [List.length_append, List.length_singleton]
      congr 2
      omega

/-- Handing slots on takes them from those that are held. -/
theorem runAll_transfers {moves : List (Nat × Option String)}
    {held : List Nat} (nodup : (moves.map Prod.fst).Nodup)
    (subset : ∀ slot ∈ moves.map Prod.fst, slot ∈ held)
    (acquired released transferred : Nat) :
    Stmt.runAll guarded (moves.map fun (slot, into) => .transfer slot into)
        [⟨held, acquired, released, transferred⟩] =
      .pass ⟨held.diff (moves.map Prod.fst), acquired, released,
        transferred + moves.length⟩ := by
  induction moves generalizing held transferred with
  | nil =>
      rfl
  | cons move moves ih =>
      obtain ⟨slot, into⟩ := move
      simp only [List.map_cons, List.nodup_cons] at nodup
      have member : slot ∈ held := subset slot (by simp)
      have first : (Stmt.transfer slot into).run guarded
          ⟨held, acquired, released, transferred⟩ =
            .pass ⟨held.erase slot, acquired, released, transferred + 1⟩ := by
        simp [Stmt.run, PathState.transfer, member]
      have rest : ∀ other ∈ moves.map Prod.fst, other ∈ held.erase slot := by
        intro other h
        have ne : other ≠ slot := fun eq => nodup.1 (eq ▸ h)
        exact (List.mem_erase_of_ne ne).mpr (subset other (by simp [h]))
      rw [List.map_cons, Stmt.runAll_cons]
      simp only [first, Outcome.andThen_pass]
      rw [ih nodup.2 rest]
      simp only [List.map_cons, List.diff_cons, List.length_cons]
      congr 2
      omega

/-- Each null check notes one exit and goes on as before. -/
theorem runAll_nullCheck (owner : ClassName) (m : MappedMethod)
    (args : List Argument) (σ : PathState) :
    Stmt.runAll guarded (args.map (nullCheck owner m)) [σ] =
      ⟨[σ], [],
        List.replicate args.length (.exit (σ.leave .nullArgument))⟩ := by
  induction args with
  | nil =>
      rfl
  | cons a args ih =>
      have body : ∀ message, Stmt.runAll guarded
          [.raise nullPointerException message,
            returnDefault m .nullArgument] [σ] =
              ⟨[], [], [.exit (σ.leave .nullArgument)]⟩ := by
        intro message
        rw [Stmt.runAll_cons_of_eq_pass rfl]
        exact Stmt.runAll_ret _ _ _
      have first : (nullCheck owner m a).run guarded σ =
          ⟨[σ], [], [.exit (σ.leave .nullArgument)]⟩ := by
        rw [nullCheck, Stmt.run, body]
        rfl
      rw [List.map_cons, Stmt.runAll_cons_of_eq first, ih]
      rfl

theorem runAll_lengthLine (a : Argument) (σ : PathState) :
    Stmt.runAll guarded (lengthLine a) [σ] = .pass σ := by
  unfold lengthLine
  split
  · exact Stmt.runAll_cons_of_eq_pass rfl []
  · rfl

/-- An acquisition whose failure is cared for may fail before it succeeds. -/
theorem run_acquire_of_ne_nil {onFailure : List Stmt}
    (care : onFailure ≠ []) (slot : Nat) (σ : PathState) :
    (Stmt.acquire slot onFailure).run guarded σ =
      (Stmt.runAll guarded onFailure [σ]).append (σ.acquire slot) := by
  cases onFailure with
  | nil =>
      exact absurd rfl care
  | cons s rest =>
      rw [Stmt.run]

/-- Releasing all that is held and returning notes a clean exit. -/
theorem runAll_releaseAll_ret (guarded : Bool) (m : MappedMethod)
    (exit : Exit) {slots : List Nat} (nodup : slots.Nodup)
    (between : List Stmt) (acquired released transferred : Nat)
    (quiet : ∀ σ, Stmt.runAll guarded between [σ] = .pass σ) :
    Stmt.runAll guarded
        (releaseAll .abort slots ++ (between ++ [returnDefault m exit]))
        [⟨slots, acquired, released, transferred⟩] =
      ⟨[], [], [.exit
        ⟨exit, acquired, released + slots.length, transferred, []⟩]⟩ := by
  rw [Stmt.runAll_append_of_eq_pass (runAll_releaseAll .abort nodup _ _ _),
    Stmt.runAll_append_of_eq_pass (quiet _)]
  exact Stmt.runAll_ret _ _ _

/-- Arguments are acquired one by one, and each may fail after the others. -/
theorem runAll_acquisitions (guarded : Bool) (m : MappedMethod)
    (args : List Argument) (k : Nat) :
    Stmt.runAll guarded (acquisitions m k args) [⟨List.range k, k, 0, 0⟩] =
      ⟨[⟨List.range (k + args.length), k + args.length, 0, 0⟩], [],
        (List.range' k args.length).map fun j =>
          .exit ⟨.acquireFailed, j, j, 0, []⟩⟩ := by
  induction args generalizing k with
  | nil =>
      rfl
  | cons a args ih =>
      have failed := runAll_releaseAll_ret guarded m
        .acquireFailed (List.nodup_range (n := k)) [] k 0 0 (fun _ => rfl)
      have first : (Stmt.acquire k (releaseAll .abort (List.range k)
            ++ [returnDefault m .acquireFailed])).run guarded
          ⟨List.range k, k, 0, 0⟩ =
            ⟨[⟨List.range (k + 1), k + 1, 0, 0⟩], [],
              [.exit ⟨.acquireFailed, k, k, 0, []⟩]⟩ := by
        rw [run_acquire_of_ne_nil (by simp)]
        rw [List.nil_append] at failed
        rw [failed]
        simp [PathState.acquire, Outcome.append, Outcome.pass,
          List.range_succ]
      rw [acquisitions, Stmt.runAll_append_of_eq_pass (runAll_lengthLine a _),
        Stmt.runAll_cons_of_eq first, ih]
      have total : k + 1 + args.length = k + (args.length + 1) := by
        omega
      simp only [Outcome.noting, List.length_cons, List.range'_succ,
        List.map_cons, List.singleton_append, total]

/-! ## Slots of arguments -/

theorem length_slotsWhere (m : MappedMethod) (p : Argument → Bool) :
    (slotsWhere m p).length = (arguments m).countP p := by
  rw [slotsWhere, List.length_map, ← List.countP_eq_length_filter]
  conv_rhs => rw [← List.zipIdx_map_fst 0 (arguments m), List.countP_map]
  rfl

theorem zipIdx_map_snd (m : MappedMethod) :
    (arguments m).zipIdx.map Prod.snd = List.range (arguments m).length := by
  rw [List.zipIdx_map_snd, List.range_eq_range']

theorem nodup_slotsWhere (m : MappedMethod) (p : Argument → Bool) :
    (slotsWhere m p).Nodup := by
  have sub : (slotsWhere m p).Sublist
      ((arguments m).zipIdx.map Prod.snd) :=
    List.filter_sublist.map _
  rw [zipIdx_map_snd] at sub
  exact sub.nodup List.nodup_range

theorem nodup_heldSlots (m : MappedMethod) : (heldSlots m).Nodup :=
  nodup_slotsWhere m _

theorem eq_of_mem_zipIdx {m : MappedMethod} {x y : Argument × Nat}
    (hx : x ∈ (arguments m).zipIdx) (hy : y ∈ (arguments m).zipIdx)
    (same : x.2 = y.2) : x = y := by
  obtain ⟨a, i⟩ := x
  obtain ⟨b, j⟩ := y
  rw [List.mem_zipIdx_iff_getElem?] at hx hy
  obtain rfl : i = j := same
  rw [hx] at hy
  exact Prod.ext (Option.some.inj hy) rfl

/-- The slots that are left when those with a property are taken away. -/
theorem range_diff_slotsWhere (m : MappedMethod) (p : Argument → Bool) :
    (List.range (arguments m).length).diff (slotsWhere m p) =
      slotsWhere m fun a => !p a := by
  rw [List.nodup_range.sdiff_eq_filter, ← zipIdx_map_snd, List.filter_map]
  unfold slotsWhere
  congr 1
  apply List.filter_congr
  intro x hx
  have member : x.2 ∈ slotsWhere m p ↔ p x.1 = true := by
    constructor
    · intro h
      obtain ⟨y, hy, same⟩ := List.mem_map.mp h
      obtain ⟨hy, holds⟩ := List.mem_filter.mp hy
      exact eq_of_mem_zipIdx hy hx same ▸ holds
    · intro holds
      exact List.mem_map_of_mem (List.mem_filter.mpr ⟨hx, holds⟩)
  rw [Bool.eq_iff_iff, Function.comp_apply, decide_eq_true_iff]
  change x.2 ∉ slotsWhere m p ↔ _
  rw [member]
  simp

/-! ## The call -/

/-- Number of resources that a stub makes for its result. -/
def madeFor : Carriage → Nat
  | .string | .array _ => 1
  | _ => 0

/-- Ways to return a result: an array that was made may be null or not. -/
def waysFor : Carriage → Nat
  | .array _ => 2
  | _ => 1

/--
The ways out once control has reached the call with `n` arguments acquired, `g`
of which are handed on: `ways` to the normal exit, with `made` resources made
for the result, and one from each handler.
-/
def exitsOfCall (n g made ways : Nat) : List ExitPath :=
  List.replicate ways ⟨.normal, n + made, n - g, g + made, []⟩
    ++ List.replicate 2 ⟨.nativeException, n, n - g, g, []⟩

/-- Owned objects are handed on; the other arguments stay held. -/
theorem runAll_transfers_lowered (m : MappedMethod) :
    Stmt.runAll guarded (transfers m)
        [⟨List.range (arguments m).length, (arguments m).length, 0, 0⟩] =
      .pass ⟨heldSlots m, (arguments m).length, 0,
        (arguments m).countP Argument.isObject⟩ := by
  let moves : List (Nat × Option String) :=
    ((arguments m).zipIdx.filter fun x => x.1.isObject).map
      fun x => (x.2, some (wrapperName x.1.index))
  have slots : moves.map Prod.fst = slotsWhere m Argument.isObject := by
    simp [moves, slotsWhere]
  have statements : transfers m =
      moves.map fun (slot, into) => .transfer slot into := by
    simp [moves, transfers]
  have subset : ∀ slot ∈ moves.map Prod.fst,
      slot ∈ List.range (arguments m).length := by
    intro slot member
    rw [slots] at member
    obtain ⟨x, hx, rfl⟩ := List.mem_map.mp member
    rw [← zipIdx_map_snd]
    exact List.mem_map_of_mem (List.mem_of_mem_filter hx)
  have count : moves.length = (arguments m).countP Argument.isObject := by
    rw [← length_slotsWhere, ← slots]
    exact (List.length_map _).symm
  rw [statements, runAll_transfers (slots ▸ nodup_slotsWhere m _) subset,
    slots, range_diff_slotsWhere, count, Nat.zero_add]
  rfl

/-- A result that is made is handed to the caller. -/
theorem runAll_returnResult (m : MappedMethod)
    (acquired released transferred : Nat) :
    Stmt.runAll guarded (returnResult m)
        [⟨[], acquired, released, transferred⟩] =
      ⟨[], [], (List.replicate (waysFor m.ret.carriage)
        ⟨.normal, acquired + madeFor m.ret.carriage, released,
          transferred + madeFor m.ret.carriage, []⟩).map .exit⟩ := by
  have made : ∀ slot, (Stmt.acquire slot []).run guarded
      ⟨[], acquired, released, transferred⟩ =
        .pass ⟨[slot], acquired + 1, released, transferred⟩ :=
    fun _ => rfl
  unfold returnResult
  cases m.ret.carriage with
  | primitive kind =>
      simp only [resultResource?]
      split <;> exact Stmt.runAll_ret _ _ _
  | object owned =>
      exact Stmt.runAll_ret _ _ _
  | string =>
      simp only [resultResource?, fillResult, List.cons_append]
      rw [Stmt.runAll_cons_of_eq_pass (made _)]
      simp [Stmt.runAll_cons, Stmt.run, PathState.transfer, Outcome.pass,
        Outcome.andThen, PathState.leave, waysFor, madeFor]
  | array kind =>
      -- Filling the array is skipped if it is null, so two states go on.
      simp only [resultResource?, fillResult, List.cons_append]
      rw [Stmt.runAll_cons_of_eq_pass (made _)]
      simp [Stmt.runAll, Stmt.run, PathState.transfer, Outcome.pass,
        Outcome.andThen, Outcome.append, Outcome.ofStates, Outcome.none,
        PathState.leave, waysFor, madeFor]

theorem run_handler (m : MappedMethod) (exceptionClass : String)
    (exceptions : Catch) (message : String)
    (acquired released transferred : Nat) :
    (handler m exceptionClass exceptions message).run guarded
        [⟨heldSlots m, acquired, released, transferred⟩] =
      ⟨[], [], [.exit ⟨.nativeException, acquired,
        released + (heldSlots m).length, transferred, []⟩]⟩ :=
  runAll_releaseAll_ret guarded m .nativeException (nodup_heldSlots m)
    [.raise exceptionClass message] acquired released transferred
    fun _ => Stmt.runAll_cons_of_eq_pass rfl []

theorem length_heldSlots (m : MappedMethod) :
    (heldSlots m).length =
      (arguments m).length - (arguments m).countP Argument.isObject := by
  have total := List.length_eq_countP_add_countP Argument.isObject
    (l := arguments m)
  rw [heldSlots, length_slotsWhere]
  simp only [Bool.not_eq_true] at total
  have same : (arguments m).countP (fun a => !a.isObject) =
      (arguments m).countP fun a => decide (a.isObject = false) := by
    congr
    funext a
    cases a.isObject <;> rfl
  omega

/-- In the `tryCatch`, the call may throw, and otherwise the result returns. -/
theorem runAll_call (m : MappedMethod) (space : List String)
    (implementation : String) :
    Stmt.runAll true
        (transfers m
          ++ .call (callLine m space implementation)
          :: releaseAll .commit (heldSlots m)
          ++ returnResult m)
        [⟨List.range (arguments m).length, (arguments m).length, 0, 0⟩] =
      ⟨[], [⟨heldSlots m, (arguments m).length, 0,
          (arguments m).countP Argument.isObject⟩],
        (List.replicate (waysFor m.ret.carriage)
          ⟨.normal, (arguments m).length + madeFor m.ret.carriage,
            0 + (heldSlots m).length,
            (arguments m).countP Argument.isObject
              + madeFor m.ret.carriage, []⟩).map .exit⟩ := by
  have call : ∀ text (σ : PathState),
      (Stmt.call text).run true σ = ⟨[σ], [σ], []⟩ :=
    fun _ _ => rfl
  rw [List.append_assoc,
    Stmt.runAll_append_of_eq_pass (runAll_transfers_lowered m),
    List.cons_append, Stmt.runAll_cons, call, Outcome.andThen]
  simp only
  rw [Stmt.runAll_append_of_eq_pass
    (runAll_releaseAll .commit (nodup_heldSlots m) _ _ _),
    runAll_returnResult]
  rfl

/-- The call is left by the result, or by one of the two handlers. -/
theorem run_guardedCall (m : MappedMethod) (space : List String)
    (implementation exceptionClass : String) :
    (guardedCall m space implementation exceptionClass).run guarded
        ⟨List.range (arguments m).length, (arguments m).length, 0, 0⟩ =
      ⟨[], [], (exitsOfCall (arguments m).length
        ((arguments m).countP Argument.isObject) (madeFor m.ret.carriage)
        (waysFor m.ret.carriage)).map .exit⟩ := by
  rw [guardedCall, Stmt.run, runAll_call]
  simp only [Handler.runAll, run_handler, Outcome.append, Outcome.none,
    List.append_nil, length_heldSlots, Nat.zero_add]
  simp [exitsOfCall]

/-! ## The whole body -/

/--
The ways out of a stub that acquires `n` arguments, `checked` of them after a
null check. A failure to acquire an argument comes after all before it.
-/
def exitsOf (checked n g made ways : Nat) : List ExitPath :=
  List.replicate checked ⟨.nullArgument, 0, 0, 0, []⟩
    ++ (List.range n).map (fun k => ⟨.acquireFailed, k, k, 0, []⟩)
    ++ exitsOfCall n g made ways

/-- The ways out of the stubs of a mapped method. -/
def exitsOfMethod (m : MappedMethod) : List ExitPath :=
  exitsOf ((arguments m).countP fun a => !a.nullable) (arguments m).length
    ((arguments m).countP Argument.isObject) (madeFor m.ret.carriage)
    (waysFor m.ret.carriage)

/-- What is noted on all ways through a lowered body. -/
theorem runAll_body (owner : ClassName) (m : MappedMethod)
    (space : List String) (implementation exceptionClass : String) :
    Stmt.runAll guarded
        (body owner m space implementation exceptionClass) [.start] =
      ⟨[], [], (exitsOfMethod m).map .exit⟩ := by
  have acquired := runAll_acquisitions guarded m (arguments m) 0
  rw [Nat.zero_add] at acquired
  rw [body, List.append_assoc, nullChecks,
    Stmt.runAll_append_of_eq (runAll_nullCheck owner m _ .start)]
  rw [show PathState.start = ⟨List.range 0, 0, 0, 0⟩ from rfl,
    Stmt.runAll_append_of_eq acquired, Stmt.runAll_cons, run_guardedCall]
  simp [Outcome.andThen, Outcome.noting, exitsOfMethod, exitsOf,
    PathState.leave,
    List.countP_eq_length_filter, List.range_eq_range', Function.comp_def]

theorem ofFindings_map_exit {paths : List ExitPath}
    (clean : ∀ path ∈ paths, path.leaked = []) :
    Audit.ofFindings (paths.map .exit) = ⟨paths, []⟩ := by
  have violations : (paths.map Finding.exit).flatMap Audit.violationsOf =
      [] := by
    rw [List.flatMap_eq_nil_iff]
    intro f member
    obtain ⟨path, hpath, rfl⟩ := List.mem_map.mp member
    simp [Audit.violationsOf, clean path hpath]
  have exits : (paths.map Finding.exit).filterMap Audit.path? = paths := by
    rw [List.filterMap_map]
    exact List.filterMap_some
  simp only [Audit.ofFindings, violations, exits, List.foldl_nil]

theorem leaked_of_mem_exitsOf {checked n g made ways : Nat}
    {path : ExitPath} (member : path ∈ exitsOf checked n g made ways) :
    path.leaked = [] := by
  simp only [exitsOf, exitsOfCall, List.mem_append, List.mem_map,
    List.mem_replicate] at member
  rcases member with (⟨-, rfl⟩ | ⟨k, -, rfl⟩) | (⟨-, rfl⟩ | ⟨-, rfl⟩) <;>
    rfl

/-- The audit of a stub with a lowered body, whatever else the stub has. -/
theorem audit_eq_of_body (s : Stub) (owner : ClassName) (m : MappedMethod)
    (space : List String) (implementation exceptionClass : String)
    (lowered : s.body = body owner m space implementation exceptionClass) :
    s.audit = ⟨exitsOfMethod m, []⟩ := by
  have noted : s.findings = (exitsOfMethod m).map .exit := by
    rw [findings, lowered, runAll_body]
    simp
  have clean : ∀ path ∈ exitsOfMethod m, path.leaked = [] :=
    fun _ => leaked_of_mem_exitsOf
  rw [audit, noted, ofFindings_map_exit clean]

/-! ## Mapped methods -/

/-- What an owned parameter of a mapped method can be. -/
theorem carriage_of_mapType_owned {owning : Bool} {t : TypeDescriptor}
    {p : MappedType} (mapped : Mapping.mapType .param owning t = .ok p)
    (owned : p.ownership.needsRelease = true) :
    p.carriage = .string ∨ p.carriage = .object true ∨
      ∃ kind, p.carriage = .array kind := by
  rcases Mapping.mapType_cases mapped with
    ⟨kind, -, rfl⟩ | ⟨-, cppType, rfl⟩ | ⟨name, -, rfl⟩ | ⟨kind, -, -, rfl⟩
  · cases owned
  · exact Or.inl rfl
  · cases owning with
    | true => exact Or.inr (Or.inl rfl)
    | false => cases owned
  · exact Or.inr (Or.inr ⟨kind, rfl⟩)

/-- Number of resources made for a result of a type. -/
def resultsMade : TypeDescriptor → Nat
  | .string | .array _ _ => 1
  | _ => 0

/-- Ways to return a result of a type. -/
def returnWays : TypeDescriptor → Nat
  | .array _ _ => 2
  | _ => 1

theorem carriage_of_mapType_result {owning : Bool} {t : TypeDescriptor}
    {p : MappedType} (mapped : Mapping.mapType .result owning t = .ok p) :
    madeFor p.carriage = resultsMade t ∧
      waysFor p.carriage = returnWays t := by
  rcases Mapping.mapType_cases mapped with
    ⟨kind, rfl, rfl⟩ | ⟨rfl, cppType, rfl⟩ | ⟨name, rfl, rfl⟩ |
      ⟨kind, dimensions, rfl, rfl⟩ <;>
    exact ⟨rfl, rfl⟩

/-- An object that an owned parameter hands on. -/
def isOwnedObject (p : MappedType) : Bool :=
  p.carriage = .object true

/-- What is acquired for an owned parameter, under the method's null checks. -/
theorem argument_of_owned {owner : ClassName} {m : Method}
    {mapped : MappedMethod}
    (accepted : Mapping.mapMethod owner m = .ok mapped)
    {x : Nat × MappedType} (member : x ∈ mapped.ownedParams) :
    ∃ resource, argumentResource? x.2.carriage = some resource ∧
      decide (resource = .globalRef) = isOwnedObject x.2 := by
  obtain ⟨-, params, -⟩ := Mapping.mapMethod_eq_ok accepted
  obtain ⟨y, hy, rfl⟩ := List.mem_map.mp member
  obtain ⟨hy, owned⟩ := List.mem_filter.mp hy
  have inside : y.1 ∈ mapped.params := List.fst_mem_of_mem_zipIdx hy
  obtain ⟨t, -, ht⟩ := (Mapping.mem_mapParams params).2 _ inside
  rcases carriage_of_mapType_owned ht owned with h | h | ⟨kind, h⟩ <;>
    simp [h, argumentResource?, isOwnedObject]

/-- Every owned parameter of a mapped method is acquired, and nothing else. -/
theorem countP_arguments {owner : ClassName} {m : Method}
    {mapped : MappedMethod}
    (accepted : Mapping.mapMethod owner m = .ok mapped)
    {p : Argument → Bool} {q : Nat × MappedType → Bool}
    (same : ∀ i carried resource,
      decide (resource = .globalRef) = isOwnedObject carried →
      p ⟨i, resource, !mapped.method.nullChecked i⟩ = q (i, carried)) :
    (arguments mapped).countP p = mapped.ownedParams.countP q := by
  rw [arguments, List.countP_filterMap]
  apply List.countP_congr
  intro x member
  obtain ⟨resource, acquired, object⟩ := argument_of_owned accepted member
  obtain ⟨i, carried⟩ := x
  simp [acquired, same i carried resource object]

/-- The ways out of the stub of a method that is mapped. -/
theorem exitsOfMethod_of_mapMethod {owner : ClassName} {m : Method}
    {mapped : MappedMethod}
    (accepted : Mapping.mapMethod owner m = .ok mapped) :
    exitsOfMethod mapped =
      exitsOf (mapped.ownedParams.countP fun (i, _) => m.nullChecked i)
        mapped.ownedParams.length
        (mapped.ownedParams.countP fun (_, p) => isOwnedObject p)
        (resultsMade m.descriptor.ret) (returnWays m.descriptor.ret) := by
  obtain ⟨method, -, ret⟩ := Mapping.mapMethod_eq_ok accepted
  obtain ⟨made, ways⟩ := carriage_of_mapType_result ret
  have checked := countP_arguments accepted (p := fun a => !a.nullable)
    (q := fun (i, _) => m.nullChecked i) (by simp [method])
  have objects := countP_arguments accepted (p := Argument.isObject)
    (q := fun (_, p) => isOwnedObject p) fun _ _ _ h => h
  have all := countP_arguments accepted (p := fun _ => true)
    (q := fun _ => true) fun _ _ _ _ => rfl
  rw [List.countP_true, List.countP_true] at all
  rw [exitsOfMethod, checked, all, objects, made, ways]

end Lowering
end NativeGlue
