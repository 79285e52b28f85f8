import NativeGlue.Proofs.Plan.Balance
import NativeGlue.Proofs.Stub.Exactness
import NativeGlue.Proofs.Stub.Statements

/-!
# Exceptions do not leave a clean stub

In C++ an exception goes to the first handler of a `tryCatch` that catches it,
and past a `tryCatch` without such a handler. The audit lets every handler take
every exception, and lets none past a `tryCatch`. So it follows all runs in
C++ only where each `tryCatch` has a handler that catches every exception.

Main statements: `not_thrown_of_isClean`, that no exception leaves such a stub
if its audit is clean, and `not_thrown_lower`, that none leaves the stub of a
method.
-/

namespace NativeGlue
namespace Stub

/-! ## Runs in C++ -/

/-- The exceptions that handlers tell apart. -/
inductive CppException where
  /-- It derives from `std::exception`. -/
  | standard
  | other
deriving DecidableEq, Repr

/-- Whether a handler catches an exception. -/
def Handler.catches (x : CppException) : Handler → Bool
  | .mk .std _ => x = .standard
  | .mk .any _ => true

/-- An exception is taken by the first handler that catches it. -/
def firstHandler (x : CppException) (handlers : List Handler) (h : Handler) :
    Prop :=
  handlers.find? (Handler.catches x) = some h

/-- The runs of a stub in C++. -/
def CppRuns (s : Stub) (es : List Event) (e : Ending CppException) : Prop :=
  Stmt.RunsAll firstHandler s.body es e

/-- A `tryCatch` that some exception gets past. -/
def Stmt.isPartial : Stmt → Bool
  | .tryCatch _ handlers => !handlers.any (Handler.catches .other)
  | _ => false

/-- A handler that catches other exceptions catches all. -/
theorem Handler.catches_of_catches_other {h : Handler}
    (all : h.catches .other = true) (x : CppException) :
    h.catches x = true := by
  cases h with
  | mk exceptions body =>
      cases exceptions with
      | std => cases all
      | any => rfl

/-- Nothing gets past a `tryCatch` that is not partial. -/
theorem exists_firstHandler {body : List Stmt} {handlers : List Handler}
    (whole : (Stmt.tryCatch body handlers).isPartial = false)
    (x : CppException) : ∃ h ∈ handlers, firstHandler x handlers h := by
  simp only [Stmt.isPartial, Bool.not_eq_false', List.any_eq_true] at whole
  obtain ⟨h, member, all⟩ := whole
  have found : (handlers.find? (Handler.catches x)).isSome = true :=
    List.find?_isSome.mpr ⟨h, member, Handler.catches_of_catches_other all x⟩
  obtain ⟨first, taken⟩ := Option.isSome_iff_exists.mp found
  exact ⟨first, List.mem_of_find?_eq_some taken, taken⟩

/-! ## Counting statements -/

section Counting

variable {p q : Stmt → Bool}

mutual

/-- A rarer property is counted no more often. -/
theorem Stmt.count_le (rarer : ∀ s, q s = true → p s = true) :
    ∀ s : Stmt, s.count q ≤ s.count p
  | .line _ | .release _ _ | .transfer _ _ | .call _ | .raise _ _
  | .ret _ _ => by
      simpa [Stmt.count] using Bool.toNat_le_toNat (rarer _)
  | .acquire slot onFailure => by
      have inner := Stmt.countAll_le rarer onFailure
      have own := Bool.toNat_le_toNat (rarer (.acquire slot onFailure))
      simp only [Stmt.count]
      omega
  | .ifThen condition body => by
      have inner := Stmt.countAll_le rarer body
      have own := Bool.toNat_le_toNat (rarer (.ifThen condition body))
      simp only [Stmt.count]
      omega
  | .tryCatch body handlers => by
      have inner := Stmt.countAll_le rarer body
      have others := Handler.countAll_le rarer handlers
      have own := Bool.toNat_le_toNat (rarer (.tryCatch body handlers))
      simp only [Stmt.count]
      omega

theorem Stmt.countAll_le (rarer : ∀ s, q s = true → p s = true) :
    ∀ body : List Stmt, Stmt.countAll q body ≤ Stmt.countAll p body
  | [] => le_rfl
  | s :: rest =>
      Nat.add_le_add (Stmt.count_le rarer s) (Stmt.countAll_le rarer rest)

theorem Handler.countAll_le (rarer : ∀ s, q s = true → p s = true) :
    ∀ handlers : List Handler,
      Handler.countAll q handlers ≤ Handler.countAll p handlers
  | [] => le_rfl
  | .mk _ body :: rest =>
      Nat.add_le_add (Stmt.countAll_le rarer body)
        (Handler.countAll_le rarer rest)

end

end Counting

/-! ## Runs in C++ are runs that the audit follows -/

/-- The ending without what was thrown. -/
def Ending.forget {ε : Type} : Ending ε → Ending Unit
  | .through => .through
  | .thrown _ => .thrown ()
  | .returned exit => .returned exit

/-- Nothing partial is in a `tryCatch` that has nothing partial in its parts. -/
theorem whole_tryCatch {body : List Stmt} {handlers : List Handler}
    (whole : (Stmt.tryCatch body handlers).count Stmt.isPartial = 0) :
    (Stmt.tryCatch body handlers).isPartial = false ∧
      Stmt.countAll Stmt.isPartial body = 0 ∧
      ∀ h ∈ handlers, Stmt.countAll Stmt.isPartial h.body = 0 := by
  rw [Stmt.count, Nat.add_eq_zero_iff, Nat.add_eq_zero_iff,
    Bool.toNat_eq_zero, Handler.countAll_eq_zero_iff] at whole
  exact whole

/-- Where nothing gets past a `tryCatch`, some handler takes an exception. -/
theorem Stmt.RunsAll.forget {body : List Stmt} {es : List Event}
    {e : Ending CppException} (run : Stmt.RunsAll firstHandler body es e)
    (whole : Stmt.countAll Stmt.isPartial body = 0) :
    Stmt.RunsAll anyHandler body es e.forget := by
  -- On the run, with the same claim for single statements as first motive.
  induction run using @Stmt.RunsAll.rec CppException firstHandler
    fun s es e _ => s.count Stmt.isPartial = 0 →
      Stmt.Runs anyHandler s es e.forget with
  | line text => exact .line text
  | raise className message => exact .raise className message
  | acquire slot onFailure => exact .acquire slot onFailure
  | release slot mode => exact .release slot mode
  | transfer slot into => exact .transfer slot into
  | call text => exact .call text
  | throw text x => exact .throw text ()
  | skip condition body => exact .skip condition body
  | ret value exit => exact .ret value exit
  | fail care run ih whole =>
      rw [Stmt.count, Nat.add_eq_zero_iff] at whole
      exact .fail care (ih whole.2)
  | enter run ih whole =>
      rw [Stmt.count, Nat.add_eq_zero_iff] at whole
      exact .enter (ih whole.2)
  | @tried _ _ _ e run calm ih whole =>
      obtain ⟨-, inner, -⟩ := whole_tryCatch whole
      refine .tried (ih inner) ?_
      cases e with
      | thrown x => exact absurd rfl (calm x)
      | _ => simp [Ending.forget]
  | caught run member taken handled ih ihHandler whole =>
      obtain ⟨-, inner, handlers⟩ := whole_tryCatch whole
      exact .caught (ih inner) member trivial (ihHandler (handlers _ member))
  | uncaught run free ih whole =>
      obtain ⟨own, -, -⟩ := whole_tryCatch whole
      obtain ⟨h, member, taken⟩ := exists_firstHandler own _
      exact absurd taken (free h member)
  | nil => exact .nil
  | cons first next ih ihRest =>
      rw [Stmt.countAll, Nat.add_eq_zero_iff] at whole
      exact .cons (ih whole.1) (ihRest whole.2)
  | @stop _ _ _ e first left ih =>
      rw [Stmt.countAll, Nat.add_eq_zero_iff] at whole
      refine .stop (ih whole.1) ?_
      cases e with
      | through => exact absurd rfl left
      | _ => simp [Ending.forget]

/-- A `tryCatch` without handlers has none that catches all exceptions. -/
theorem count_isUnhandled_eq_zero {s : Stub}
    (whole : s.count Stmt.isPartial = 0) : s.count Stmt.isUnhandled = 0 := by
  have rarer : ∀ s : Stmt, s.isUnhandled = true → s.isPartial = true := by
    intro s unhandled
    match s, unhandled with
    | .tryCatch _ [], _ => rfl
  exact Nat.le_zero.mp (whole ▸ Stmt.countAll_le rarer s.body)

/-- What a run does wrong, at its end or before, the audit finds. -/
theorem mem_violations_of_run {s : Stub}
    (handled : s.count Stmt.isUnhandled = 0) {es : List Event}
    {e : Ending Unit} (run : s.Runs es e) {v : Violation}
    (wrong : v ∈ PathState.start.offences es ++ s.endingOffences e) :
    v ∈ s.audit.violations := by
  refine mem_audit_violations.mpr ⟨.offence v, ?_, by
    simp [Audit.violationsOf]⟩
  refine (mem_findings_iff handled).mpr ⟨es, e, run, ?_⟩
  exact List.mem_append_left _ (List.mem_map_of_mem wrong)

/-- Without partial `tryCatch`, the audit finds that an exception escapes. -/
theorem unwind_mem_violations {s : Stub}
    (whole : s.count Stmt.isPartial = 0) {es : List Event} {x : CppException}
    (run : s.CppRuns es (.thrown x)) : .unwind ∈ s.audit.violations :=
  mem_violations_of_run (count_isUnhandled_eq_zero whole)
    (Stmt.RunsAll.forget run whole) (by simp [endingOffences, Ending.forget])

end Stub

namespace Lowering

open Stub

/-! ## Lowered stubs have no partial `tryCatch` -/

/-- The handlers of the call catch all exceptions. -/
theorem spared_isPartial (m : MappedMethod) :
    Spared m Stmt.isPartial where
  length a _ := by
    unfold lengthLine
    split <;> rfl
  fill resource := by cases resource <;> rfl
  acquire _ _ := rfl
  release _ _ := rfl
  transfer _ _ := rfl
  call _ := rfl
  raise _ _ := rfl
  guarded _ _ _ := rfl
  ret _ _ _ := rfl

theorem countAll_isPartial_nullChecks (owner : ClassName)
    (m : MappedMethod) :
    Stmt.countAll Stmt.isPartial (nullChecks owner m) = 0 := by
  rw [Stmt.countAll_eq_zero_iff]
  intro s member
  obtain ⟨a, -, rfl⟩ := List.mem_map.mp member
  rfl

section Lowered

variable (t : Target) (m : MappedMethod) (signature : Signature)
  (implementation exceptionClass : String)

theorem count_isPartial_lower :
    (lower t m signature implementation exceptionClass).stub.count
      Stmt.isPartial = 0 := by
  change Stmt.countAll Stmt.isPartial (body t.name m (spaceOf t m.method)
    implementation exceptionClass) = 0
  rw [body_eq, Stmt.countAll_append, countAll_isPartial_nullChecks,
    (spared_isPartial m).afterChecks]

theorem violations_audit_lower :
    (lower t m signature implementation exceptionClass).stub.audit.violations =
      [] := by
  rw [audit_eq_of_body _ t.name m (spaceOf t m.method) implementation
    exceptionClass rfl]

/-- No exception leaves the stub of a method. -/
theorem not_thrown_lower (es : List Event) (x : CppException) :
    ¬ (lower t m signature implementation exceptionClass).stub.CppRuns es
      (.thrown x) := by
  intro run
  have found := unwind_mem_violations (count_isPartial_lower ..) run
  rw [violations_audit_lower] at found
  cases found

end Lowered

end Lowering

namespace Stub

/--
If every `tryCatch` of a stub has a handler that catches all exceptions and
the audit of the stub is clean, then no exception leaves the stub on any run in
C++.
-/
theorem not_thrown_of_isClean (s : Stub)
    (whole : s.count Stmt.isPartial = 0) (clean : s.audit.isClean = true)
    (es : List Event) (x : CppException) : ¬ s.CppRuns es (.thrown x) := by
  intro run
  have found := unwind_mem_violations whole run
  rw [List.isEmpty_iff.mp clean] at found
  cases found

/-- A stub that calls again in a handler, with a `tryCatch` around it all. -/
def retrying : Stub where
  symbol := "Java_a_B_f"
  returnType := "void"
  params := []
  slots := []
  body :=
    [.tryCatch
      [.tryCatch [.call "f();"]
        [.mk .std [.call "g();"], .mk .any [.ret .void .nativeException]]]
      [.mk .any [.ret .void .nativeException]]]

theorem not_thrown_retrying :
    retrying.count Stmt.isPartial = 0 ∧ retrying.audit.isClean = true ∧
      ∀ es x, ¬ retrying.CppRuns es (.thrown x) :=
  ⟨by decide, by decide,
    not_thrown_of_isClean retrying (by decide) (by decide)⟩

/-- A stub whose only handler catches what derives from `std::exception`. -/
def halfGuarded : Stub where
  symbol := "Java_a_B_f"
  returnType := "void"
  params := []
  slots := []
  body :=
    [.tryCatch [.call "f();"] [.mk .std [.ret .void .nativeException]]]

/-- A clean audit alone does not tell that no exception leaves the stub. -/
theorem not_forall_isClean_not_thrown :
    ¬ ∀ s : Stub, s.audit.isClean = true →
      ∀ es x, ¬ s.CppRuns es (.thrown x) := by
  intro sound
  refine sound halfGuarded (by decide) [.called "f();"] .other ?_
  have thrown : Stmt.RunsAll firstHandler [.call "f();"] [.called "f();"]
      (.thrown .other) :=
    .stop (.throw "f();" CppException.other) (by simp)
  refine .stop (.uncaught thrown ?_) (by simp)
  intro h member taken
  obtain rfl := List.mem_singleton.mp member
  cases taken

end Stub
end NativeGlue
