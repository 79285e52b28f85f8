import NativeGlue.Proofs.Stub.Run
import NativeGlue.Stub.Lowering

/-!
# Statements after the null checks

A kind of statements that lowering writes nowhere after the null checks has no
statement there. This is followed part by part once, for any kind.
-/

namespace NativeGlue
namespace Lowering

open Stub

variable {m : MappedMethod} {p : Stmt → Bool}

/-- Statements of a kind that stubs do not have after their null checks. -/
structure Spared (m : MappedMethod) (p : Stmt → Bool) : Prop where
  length : ∀ a ∈ arguments m, Stmt.countAll p (lengthLine a) = 0
  fill : ∀ resource, Stmt.countAll p (fillResult resource) = 0
  acquire : ∀ slot onFailure, p (.acquire slot onFailure) = false
  release : ∀ slot mode, p (.release slot mode) = false
  transfer : ∀ slot into, p (.transfer slot into) = false
  call : ∀ text, p (.call text) = false
  raise : ∀ className message, p (.raise className message) = false
  guarded : ∀ space implementation exceptionClass,
    p (guardedCall m space implementation exceptionClass) = false
  ret : ∀ value exit, exit ≠ .nullArgument → p (.ret value exit) = false

theorem Spared.releaseAll (spared : Spared m p) (mode : ReleaseMode)
    (slots : List Nat) : Stmt.countAll p (releaseAll mode slots) = 0 := by
  rw [Stmt.countAll_eq_zero_iff]
  simp [Lowering.releaseAll, Stmt.count, spared.release]

theorem Spared.acquisitions (spared : Spared m p) (slot : Nat)
    {args : List Argument} (inside : ∀ a ∈ args, a ∈ arguments m) :
    Stmt.countAll p (acquisitions m slot args) = 0 := by
  induction args generalizing slot with
  | nil => rfl
  | cons a args ih =>
      rw [List.forall_mem_cons] at inside
      have failed : Stmt.countAll p (Lowering.releaseAll .abort
          (List.range slot) ++ [returnDefault m .acquireFailed]) = 0 := by
        rw [Stmt.countAll_append, spared.releaseAll]
        simp [returnDefault, Stmt.countAll, Stmt.count, spared.ret]
      rw [Lowering.acquisitions, Stmt.countAll_append,
        spared.length a inside.1, Stmt.countAll, ih _ inside.2, Stmt.count,
        failed, spared.acquire]
      rfl

theorem Spared.returnResult (spared : Spared m p) :
    Stmt.countAll p (returnResult m) = 0 := by
  have acquired := spared.acquire
  have handed := spared.transfer
  have returned := fun value => spared.ret value .normal nofun
  unfold Lowering.returnResult
  split
  · rw [List.cons_append, Stmt.countAll, Stmt.countAll_append, spared.fill]
    simp [Stmt.countAll, Stmt.count, acquired, handed, returned]
  · split
    · split <;> simp [Stmt.countAll, Stmt.count, returned]
    · simp [Stmt.countAll, Stmt.count, returned]

theorem Spared.guardedCall (spared : Spared m p) (space : List String)
    (implementation exceptionClass : String) :
    (guardedCall m space implementation exceptionClass).count p = 0 := by
  have transferred : Stmt.countAll p (transfers m) = 0 := by
    rw [Stmt.countAll_eq_zero_iff]
    intro s member
    obtain ⟨x, -, rfl⟩ := List.mem_map.mp member
    simp [Stmt.count, spared.transfer]
  have handled : ∀ exceptions message, Handler.count p
      (handler m exceptionClass exceptions message) = 0 := by
    intro exceptions message
    rw [handler, Handler.count, Stmt.countAll_append, spared.releaseAll]
    simp [returnDefault, Stmt.countAll, Stmt.count, spared.raise, spared.ret]
  have own := spared.guarded space implementation exceptionClass
  rw [Lowering.guardedCall] at own ⊢
  rw [Stmt.count, own]
  simp [Stmt.count, Stmt.countAll_append, Stmt.countAll, Handler.countAll,
    transferred, handled, spared.releaseAll, spared.returnResult, spared.call]

/-- What follows the null checks. -/
def afterChecks (m : MappedMethod) (space : List String)
    (implementation exceptionClass : String) : List Stmt :=
  acquisitions m 0 (arguments m)
    ++ [guardedCall m space implementation exceptionClass]

theorem body_eq (owner : ClassName) (m : MappedMethod) (space : List String)
    (implementation exceptionClass : String) :
    body owner m space implementation exceptionClass =
      nullChecks owner m
        ++ afterChecks m space implementation exceptionClass :=
  List.append_assoc ..

theorem Spared.afterChecks (spared : Spared m p) (space : List String)
    (implementation exceptionClass : String) :
    Stmt.countAll p (afterChecks m space implementation exceptionClass) =
      0 := by
  rw [Lowering.afterChecks, Stmt.countAll_append,
    spared.acquisitions 0 fun _ member => member, Stmt.countAll,
    spared.guardedCall]
  rfl

end Lowering
end NativeGlue
