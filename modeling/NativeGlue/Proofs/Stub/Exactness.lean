import NativeGlue.Proofs.Stub.Run

/-!
# The audit finds what the runs do

The audit carries the states of all runs through a body together. This module
shows that nothing is lost or made up on the way: an outcome has just the
states and findings of the runs that it stands for.

`Outcome.Exact` says so for the outcome of a piece of a body from some states.
Each way to put outcomes together keeps it, and so every statement, block and
list of handlers has an exact outcome, by induction on the body. In the whole
body no `tryCatch` is around, and exactness becomes the main statement: the
ways out and the violations of the audit are those of the runs.

A `tryCatch` without handlers is excluded. Its audit drops the exceptions that
its body throws, while a run takes them on to the `tryCatch` around.
-/

namespace NativeGlue
namespace Stub

/-- The events and endings of some piece of a body. -/
abbrev Behaviour := List Event → Ending Unit → Prop

/-- What is noted when control leaves; a `tryCatch` around stops exceptions. -/
def Ending.findings (guarded : Bool) (state : PathState) :
    Ending Unit → List Finding
  | .through => []
  | .thrown _ =>
      if guarded then []
      else [.offence .unwind, .exit (state.leave .unwind)]
  | .returned exit => [.exit (state.leave exit)]

/-- What is noted on a run from a state. -/
def PathState.findings (guarded : Bool) (state : PathState)
    (es : List Event) (e : Ending Unit) : List Finding :=
  (state.offences es).map .offence ++ e.findings guarded (state.after es)

/--
An outcome has the states and findings of the runs of a behaviour from some
states, and no others.
-/
structure Outcome.Exact (guarded : Bool) (states : List PathState)
    (runs : Behaviour) (o : Outcome) : Prop where
  mem_through : ∀ τ, τ ∈ o.through ↔
    ∃ σ ∈ states, ∃ es, runs es .through ∧ τ = σ.after es
  mem_thrown : ∀ τ, τ ∈ o.thrown ↔
    guarded = true ∧
      ∃ σ ∈ states, ∃ es, runs es (.thrown ()) ∧ τ = σ.after es
  mem_findings : ∀ f, f ∈ o.findings ↔
    ∃ σ ∈ states, ∃ es e, runs es e ∧ f ∈ σ.findings guarded es e

/-! ## Putting outcomes together -/

section Combinators

variable {guarded : Bool} {states : List PathState}
variable {runs runs' : Behaviour} {o o' : Outcome}

/-- A behaviour may be described in another way. -/
theorem Outcome.Exact.congr
    (h : o.Exact guarded states runs)
    (same : ∀ es e, runs es e ↔ runs' es e) :
    o.Exact guarded states runs' := by
  have eq : runs = runs' := funext₂ fun es e => propext (same es e)
  rwa [← eq]

/-- Nothing runs from no state. -/
theorem Outcome.exact_none :
    Outcome.none.Exact guarded [] runs := by
  constructor <;> simp [Outcome.none]

/-- Outcomes side by side stand for either behaviour. -/
theorem Outcome.Exact.append
    (h : o.Exact guarded states runs)
    (h' : o'.Exact guarded states runs') :
    (o.append o').Exact guarded states
      (fun es e => runs es e ∨ runs' es e) := by
  constructor
  · intro τ
    simp only [Outcome.append, List.mem_append, h.mem_through,
      h'.mem_through, or_and_right, and_or_left, exists_or]
  · intro τ
    simp only [Outcome.append, List.mem_append, h.mem_thrown, h'.mem_thrown,
      or_and_right, and_or_left, exists_or]
  · intro f
    simp only [Outcome.append, List.mem_append, h.mem_findings,
      h'.mem_findings, or_and_right, and_or_left, exists_or]

/-- The outcomes from several states are exact if each of them is. -/
theorem Outcome.exact_ofStates {run : PathState → Outcome}
    (h : ∀ σ, (run σ).Exact guarded [σ] runs) (states : List PathState) :
    (Outcome.ofStates states run).Exact guarded states runs := by
  induction states with
  | nil =>
      exact Outcome.exact_none
  | cons σ rest ih =>
      have first := h σ
      constructor
      · intro τ
        show τ ∈ (run σ).through ++ (Outcome.ofStates rest run).through ↔ _
        simp only [List.mem_append, first.mem_through, ih.mem_through,
          List.mem_cons, List.not_mem_nil, or_false, or_and_right, exists_or,
          exists_eq_left]
      · intro τ
        show τ ∈ (run σ).thrown ++ (Outcome.ofStates rest run).thrown ↔ _
        simp only [List.mem_append, first.mem_thrown, ih.mem_thrown,
          List.mem_cons, List.not_mem_nil, or_false, or_and_right, exists_or,
          exists_eq_left, and_or_left]
      · intro f
        show f ∈ (run σ).findings ++ (Outcome.ofStates rest run).findings ↔ _
        simp only [List.mem_append, first.mem_findings, ih.mem_findings,
          List.mem_cons, List.not_mem_nil, or_false, or_and_right, exists_or,
          exists_eq_left]

/-- One behaviour, and another one where it lets control through. -/
def Behaviour.seq (runs runs' : Behaviour) : Behaviour := fun es e =>
  (∃ fs gs, runs fs .through ∧ runs' gs e ∧ es = fs ++ gs) ∨
    (runs es e ∧ e ≠ .through)

/-- What is noted on a run that control passes through is noted on the whole. -/
theorem PathState.mem_findings_append {σ : PathState} {f : Finding}
    {fs gs : List Event} {e : Ending Unit} :
    f ∈ σ.findings guarded (fs ++ gs) e ↔
      f ∈ σ.findings guarded fs .through ∨
        f ∈ (σ.after fs).findings guarded gs e := by
  simp [PathState.findings, Ending.findings]

/--
An outcome followed by another is exact. What the first part does wrong is on
a run of the whole, since the second part never gets stuck.
-/
theorem Outcome.Exact.andThen {run : List PathState → Outcome}
    (h : o.Exact guarded states runs)
    (h' : ∀ states', (run states').Exact guarded states' runs')
    (total : ∃ es e, runs' es e) :
    (o.andThen run).Exact guarded states (runs.seq runs') := by
  have next := h' o.through
  constructor
  · intro τ
    show τ ∈ (run o.through).through ↔ _
    rw [next.mem_through]
    constructor
    · rintro ⟨ρ, hρ, gs, hgs, rfl⟩
      obtain ⟨σ, hσ, fs, hfs, rfl⟩ := (h.mem_through ρ).mp hρ
      exact ⟨σ, hσ, fs ++ gs, Or.inl ⟨fs, gs, hfs, hgs, rfl⟩, by simp⟩
    · rintro ⟨σ, hσ, es, ⟨fs, gs, hfs, hgs, rfl⟩ | ⟨_, ne⟩, rfl⟩
      · exact ⟨σ.after fs, (h.mem_through _).mpr ⟨σ, hσ, fs, hfs, rfl⟩,
          gs, hgs, by simp⟩
      · exact absurd rfl ne
  · intro τ
    show τ ∈ o.thrown ++ (run o.through).thrown ↔ _
    rw [List.mem_append, h.mem_thrown, next.mem_thrown]
    constructor
    · rintro (⟨hg, σ, hσ, es, hes, rfl⟩ | ⟨hg, ρ, hρ, gs, hgs, rfl⟩)
      · exact ⟨hg, σ, hσ, es, Or.inr ⟨hes, by simp⟩, rfl⟩
      · obtain ⟨σ, hσ, fs, hfs, rfl⟩ := (h.mem_through ρ).mp hρ
        exact ⟨hg, σ, hσ, fs ++ gs, Or.inl ⟨fs, gs, hfs, hgs, rfl⟩, by simp⟩
    · rintro ⟨hg, σ, hσ, es, ⟨fs, gs, hfs, hgs, rfl⟩ | ⟨hes, _⟩, rfl⟩
      · exact Or.inr ⟨hg, σ.after fs,
          (h.mem_through _).mpr ⟨σ, hσ, fs, hfs, rfl⟩, gs, hgs, by simp⟩
      · exact Or.inl ⟨hg, σ, hσ, es, hes, rfl⟩
  · intro f
    show f ∈ o.findings ++ (run o.through).findings ↔ _
    rw [List.mem_append, h.mem_findings, next.mem_findings]
    constructor
    · rintro (⟨σ, hσ, es, e, hes, hf⟩ | ⟨ρ, hρ, gs, e, hgs, hf⟩)
      · by_cases through : e = .through
        · subst through
          obtain ⟨gs, e, hgs⟩ := total
          exact ⟨σ, hσ, es ++ gs, e, Or.inl ⟨es, gs, hes, hgs, rfl⟩,
            PathState.mem_findings_append.mpr (Or.inl hf)⟩
        · exact ⟨σ, hσ, es, e, Or.inr ⟨hes, through⟩, hf⟩
      · obtain ⟨σ, hσ, fs, hfs, rfl⟩ := (h.mem_through ρ).mp hρ
        exact ⟨σ, hσ, fs ++ gs, e, Or.inl ⟨fs, gs, hfs, hgs, rfl⟩,
          PathState.mem_findings_append.mpr (Or.inr hf)⟩
    · rintro ⟨σ, hσ, es, e, ⟨fs, gs, hfs, hgs, rfl⟩ | ⟨hes, _⟩, hf⟩
      · rcases PathState.mem_findings_append.mp hf with hf | hf
        · exact Or.inl ⟨σ, hσ, fs, .through, hfs, hf⟩
        · exact Or.inr ⟨σ.after fs,
            (h.mem_through _).mpr ⟨σ, hσ, fs, hfs, rfl⟩, gs, e, hgs, hf⟩
      · exact Or.inl ⟨σ, hσ, es, e, hes, hf⟩

/--
The body of a `tryCatch` followed by its handlers, where control goes on from
the body and from the handlers.
-/
theorem Outcome.Exact.tryCatch {run : List PathState → Outcome}
    (h : o.Exact true states runs)
    (h' : ∀ states', (run states').Exact guarded states' runs')
    (total : ∃ es e, runs' es e) :
    (Outcome.append { o with thrown := [] } (run o.thrown)).Exact guarded
      states
      (fun es e =>
        (runs es e ∧ ∀ x, e ≠ .thrown x) ∨
          ∃ fs gs, runs fs (.thrown ()) ∧ runs' gs e ∧ es = fs ++ gs) := by
  have next := h' o.thrown
  constructor
  · intro τ
    show τ ∈ o.through ++ (run o.thrown).through ↔ _
    rw [List.mem_append, h.mem_through, next.mem_through]
    constructor
    · rintro (⟨σ, hσ, es, hes, rfl⟩ | ⟨ρ, hρ, gs, hgs, rfl⟩)
      · exact ⟨σ, hσ, es, Or.inl ⟨hes, by simp⟩, rfl⟩
      · obtain ⟨-, σ, hσ, fs, hfs, rfl⟩ := (h.mem_thrown ρ).mp hρ
        exact ⟨σ, hσ, fs ++ gs, Or.inr ⟨fs, gs, hfs, hgs, rfl⟩, by simp⟩
    · rintro ⟨σ, hσ, es, ⟨hes, -⟩ | ⟨fs, gs, hfs, hgs, rfl⟩, rfl⟩
      · exact Or.inl ⟨σ, hσ, es, hes, rfl⟩
      · exact Or.inr ⟨σ.after fs,
          (h.mem_thrown _).mpr ⟨rfl, σ, hσ, fs, hfs, rfl⟩, gs, hgs, by simp⟩
  · intro τ
    show τ ∈ [] ++ (run o.thrown).thrown ↔ _
    rw [List.nil_append, next.mem_thrown]
    constructor
    · rintro ⟨hg, ρ, hρ, gs, hgs, rfl⟩
      obtain ⟨-, σ, hσ, fs, hfs, rfl⟩ := (h.mem_thrown ρ).mp hρ
      exact ⟨hg, σ, hσ, fs ++ gs, Or.inr ⟨fs, gs, hfs, hgs, rfl⟩, by simp⟩
    · rintro ⟨hg, σ, hσ, es, ⟨-, calm⟩ | ⟨fs, gs, hfs, hgs, rfl⟩, rfl⟩
      · exact absurd rfl (calm ())
      · exact ⟨hg, σ.after fs,
          (h.mem_thrown _).mpr ⟨rfl, σ, hσ, fs, hfs, rfl⟩, gs, hgs, by simp⟩
  · intro f
    show f ∈ o.findings ++ (run o.thrown).findings ↔ _
    rw [List.mem_append, h.mem_findings, next.mem_findings]
    constructor
    · rintro (⟨σ, hσ, es, e, hes, hf⟩ | ⟨ρ, hρ, gs, e, hgs, hf⟩)
      · cases e with
        | through =>
            exact ⟨σ, hσ, es, .through, Or.inl ⟨hes, by simp⟩, hf⟩
        | returned exit =>
            exact ⟨σ, hσ, es, .returned exit, Or.inl ⟨hes, by simp⟩, hf⟩
        | thrown x =>
            -- The body noted this offence; some handler goes on from there.
            obtain ⟨gs, e, hgs⟩ := total
            exact ⟨σ, hσ, es ++ gs, e, Or.inr ⟨es, gs, hes, hgs, rfl⟩,
              PathState.mem_findings_append.mpr (Or.inl hf)⟩
      · obtain ⟨-, σ, hσ, fs, hfs, rfl⟩ := (h.mem_thrown ρ).mp hρ
        exact ⟨σ, hσ, fs ++ gs, e, Or.inr ⟨fs, gs, hfs, hgs, rfl⟩,
          PathState.mem_findings_append.mpr (Or.inr hf)⟩
    · rintro ⟨σ, hσ, es, e, ⟨hes, calm⟩ | ⟨fs, gs, hfs, hgs, rfl⟩, hf⟩
      · cases e with
        | through => exact Or.inl ⟨σ, hσ, es, .through, hes, hf⟩
        | returned exit => exact Or.inl ⟨σ, hσ, es, .returned exit, hes, hf⟩
        | thrown x => exact absurd rfl (calm x)
      · rcases PathState.mem_findings_append.mp hf with hf | hf
        · exact Or.inl ⟨σ, hσ, fs, .thrown (), hfs, hf⟩
        · exact Or.inr ⟨σ.after fs,
            (h.mem_thrown _).mpr ⟨rfl, σ, hσ, fs, hfs, rfl⟩, gs, e, hgs, hf⟩

end Combinators

/-! ## Single statements -/

section Statements

variable {guarded : Bool} {σ : PathState}

/-- The outcome of one event. -/
def Outcome.ofEvent (state : PathState) (event : Event) : Outcome :=
  ⟨[state.step event], [], (state.offence? event).toList.map .offence⟩

theorem PathState.acquire_eq_ofEvent (state : PathState) (slot : Nat) :
    state.acquire slot = .ofEvent state (.acquired slot) := by
  by_cases held : slot ∈ state.held <;>
    simp [PathState.acquire, Outcome.ofEvent, PathState.step,
      PathState.offence?, Outcome.pass, held]

theorem PathState.release_eq_ofEvent (state : PathState) (slot : Nat)
    (mode : ReleaseMode) :
    state.release slot = .ofEvent state (.released slot mode) := by
  by_cases held : slot ∈ state.held <;>
    simp [PathState.release, Outcome.ofEvent, PathState.step,
      PathState.offence?, Outcome.pass, held]

theorem PathState.transfer_eq_ofEvent (state : PathState) (slot : Nat)
    (into : Option String) :
    state.transfer slot = .ofEvent state (.transferred slot into) := by
  by_cases held : slot ∈ state.held <;>
    simp [PathState.transfer, Outcome.ofEvent, PathState.step,
      PathState.offence?, Outcome.pass, held]

/-- One event, after which control goes on, has an exact outcome. -/
theorem Outcome.exact_ofEvent (event : Event) :
    (Outcome.ofEvent σ event).Exact guarded [σ]
      (fun es e => es = [event] ∧ e = .through) := by
  constructor
  · intro τ
    simp [Outcome.ofEvent]
  · intro τ
    simp [Outcome.ofEvent]
  · intro f
    simp [Outcome.ofEvent, PathState.findings, Ending.findings,
      PathState.offences]

/-- An event that changes nothing may come first. -/
theorem Outcome.Exact.cons {runs : Behaviour} {o : Outcome}
    (h : o.Exact guarded [σ] runs) (event : Event)
    (same : σ.step event = σ) (fine : σ.offence? event = Option.none) :
    o.Exact guarded [σ]
      (fun es e => ∃ fs, runs fs e ∧ es = event :: fs) := by
  have findings : ∀ es e, σ.findings guarded (event :: es) e =
      σ.findings guarded es e := by
    intro es e
    simp [PathState.findings, PathState.offences, same, fine]
  constructor
  · intro τ
    rw [h.mem_through]
    constructor
    · rintro ⟨ρ, hρ, es, hes, rfl⟩
      obtain rfl := List.mem_singleton.mp hρ
      exact ⟨ρ, hρ, event :: es, ⟨es, hes, rfl⟩, by simp [same]⟩
    · rintro ⟨ρ, hρ, _, ⟨es, hes, rfl⟩, rfl⟩
      obtain rfl := List.mem_singleton.mp hρ
      exact ⟨ρ, hρ, es, hes, by simp [same]⟩
  · intro τ
    rw [h.mem_thrown]
    constructor
    · rintro ⟨hg, ρ, hρ, es, hes, rfl⟩
      obtain rfl := List.mem_singleton.mp hρ
      exact ⟨hg, ρ, hρ, event :: es, ⟨es, hes, rfl⟩, by simp [same]⟩
    · rintro ⟨hg, ρ, hρ, _, ⟨es, hes, rfl⟩, rfl⟩
      obtain rfl := List.mem_singleton.mp hρ
      exact ⟨hg, ρ, hρ, es, hes, by simp [same]⟩
  · intro f
    rw [h.mem_findings]
    constructor
    · rintro ⟨ρ, hρ, es, e, hes, hf⟩
      obtain rfl := List.mem_singleton.mp hρ
      exact ⟨ρ, hρ, event :: es, e, ⟨es, hes, rfl⟩, by rwa [findings]⟩
    · rintro ⟨ρ, hρ, _, e, ⟨es, hes, rfl⟩, hf⟩
      obtain rfl := List.mem_singleton.mp hρ
      exact ⟨ρ, hρ, es, e, hes, by rwa [findings] at hf⟩

/-- A call goes on, and throws to the `tryCatch` around or out of the stub. -/
theorem PathState.exact_call (text : String) :
    (σ.call guarded).Exact guarded [σ]
      (Stmt.Runs anyHandler (.call text)) := by
  cases guarded <;>
    constructor <;>
      simp [PathState.call, runs_call_iff, PathState.findings,
        Ending.findings, PathState.offences, PathState.offence?,
        PathState.step]

/-- A return ends the run. -/
theorem PathState.exact_ret (value : ReturnValue) (exit : Exit) :
    (Outcome.mk [] [] [.exit (σ.leave exit)]).Exact guarded [σ]
      (Stmt.Runs anyHandler (.ret value exit)) := by
  constructor <;>
    simp [runs_ret_iff, PathState.findings, Ending.findings]

end Statements

/-! ## Bodies -/

/-- A `tryCatch` without handlers. -/
def Stmt.isUnhandled : Stmt → Bool
  | .tryCatch _ [] => true
  | _ => false

/-- The runs of some handlers, whichever of them takes the exception. -/
def Handler.RunsAny (handlers : List Handler) : Behaviour := fun es e =>
  ∃ h ∈ handlers, Stmt.RunsAll anyHandler h.body es e

/-- Where there are handlers, an exception always goes to one of them. -/
theorem runs_tryCatch_anyHandler_iff {body : List Stmt}
    {handlers : List Handler} (ne : handlers ≠ [])
    {es : List Event} {e : Ending Unit} :
    Stmt.Runs anyHandler (.tryCatch body handlers) es e ↔
      (Stmt.RunsAll anyHandler body es e ∧ ∀ x, e ≠ .thrown x) ∨
        ∃ fs gs, Stmt.RunsAll anyHandler body fs (.thrown ()) ∧
          Handler.RunsAny handlers gs e ∧ es = fs ++ gs := by
  rw [runs_tryCatch_iff]
  apply or_congr_right
  constructor
  · rintro ⟨x, fs, run, ⟨h, member, -, gs, handled, rfl⟩ | ⟨free, -, -⟩⟩
    · exact ⟨fs, gs, run, ⟨h, member, handled⟩, rfl⟩
    · obtain ⟨h, member⟩ := List.exists_mem_of_ne_nil handlers ne
      exact absurd trivial (free h member)
  · rintro ⟨fs, gs, run, ⟨h, member, handled⟩, rfl⟩
    exact ⟨(), fs, run, Or.inl ⟨h, member, trivial, gs, handled, rfl⟩⟩

mutual

/-- The outcome of a statement is exact. -/
theorem Stmt.run_exact (guarded : Bool) (σ : PathState) :
    ∀ s : Stmt, s.count Stmt.isUnhandled = 0 →
      (s.run guarded σ).Exact guarded [σ] (Stmt.Runs anyHandler s)
  | .line text, _ => by
      exact (Outcome.exact_ofEvent (.line text)).congr
        fun _ _ => runs_line_iff.symm
  | .raise className message, _ => by
      exact (Outcome.exact_ofEvent (.raised className message)).congr
        fun _ _ => runs_raise_iff.symm
  | .release slot mode, _ => by
      show (σ.release slot).Exact _ _ _
      rw [PathState.release_eq_ofEvent σ slot mode]
      exact (Outcome.exact_ofEvent _).congr fun _ _ => runs_release_iff.symm
  | .transfer slot into, _ => by
      show (σ.transfer slot).Exact _ _ _
      rw [PathState.transfer_eq_ofEvent σ slot into]
      exact (Outcome.exact_ofEvent _).congr fun _ _ => runs_transfer_iff.symm
  | .call text, _ => PathState.exact_call text
  | .ret value exit, _ => PathState.exact_ret value exit
  | .acquire slot [], _ => by
      show (σ.acquire slot).Exact _ _ _
      rw [PathState.acquire_eq_ofEvent σ slot]
      refine (Outcome.exact_ofEvent _).congr fun _ _ => ?_
      rw [runs_acquire_iff]
      simp
  | .acquire slot (s :: rest), handled => by
      have failed := (Stmt.runAll_exact guarded (s :: rest)
        (by simpa [Stmt.count, Stmt.isUnhandled] using handled) [σ]).cons
          (.failed slot) rfl rfl
      show (Outcome.append _ (σ.acquire slot)).Exact _ _ _
      rw [PathState.acquire_eq_ofEvent σ slot]
      refine (failed.append (Outcome.exact_ofEvent _)).congr fun _ _ => ?_
      rw [runs_acquire_iff, or_comm]
      simp
  | .ifThen condition body, handled => by
      have entered := (Stmt.runAll_exact guarded body
        (by simpa [Stmt.count, Stmt.isUnhandled] using handled) [σ]).cons
          (.tested condition true) rfl rfl
      have skipped : (Outcome.ofEvent σ (.tested condition false)).Exact
          guarded [σ] _ :=
        Outcome.exact_ofEvent _
      refine (entered.append skipped).congr fun _ _ => ?_
      rw [runs_ifThen_iff, or_comm]
  | .tryCatch body handlers, handled => by
      have ne : handlers ≠ [] := by
        rintro rfl
        simp [Stmt.count, Stmt.isUnhandled] at handled
      have none : Stmt.countAll Stmt.isUnhandled body = 0 ∧
          Handler.countAll Stmt.isUnhandled handlers = 0 := by
        simp only [Stmt.count] at handled
        omega
      obtain ⟨h, member⟩ := List.exists_mem_of_ne_nil handlers ne
      obtain ⟨es, e, run, -⟩ :=
        Handler.exists_runsAll anyHandler (fun _ => true) handlers h member
      have tried := Stmt.runAll_exact true body none.1 [σ]
      have caught := Handler.runAll_exact guarded handlers none.2
      refine (tried.tryCatch caught ⟨es, e, h, member, run⟩).congr
        fun _ _ => ?_
      rw [runs_tryCatch_anyHandler_iff ne]

/-- The outcome of a block is exact. -/
theorem Stmt.runAll_exact (guarded : Bool) :
    ∀ body : List Stmt, Stmt.countAll Stmt.isUnhandled body = 0 →
      ∀ states, (Stmt.runAll guarded body states).Exact guarded states
        (Stmt.RunsAll anyHandler body)
  | [], _, states => by
      constructor <;>
        simp [Stmt.runAll, runsAll_nil_iff, PathState.findings,
          Ending.findings]
  | s :: rest, handled, states => by
      have none : s.count Stmt.isUnhandled = 0 ∧
          Stmt.countAll Stmt.isUnhandled rest = 0 := by
        simp only [Stmt.countAll] at handled
        omega
      have first := Outcome.exact_ofStates
        (fun σ => Stmt.run_exact guarded σ s none.1) states
      have next := Stmt.runAll_exact guarded rest none.2
      obtain ⟨es, e, run, -⟩ :=
        Stmt.exists_runsAll anyHandler (fun _ => true) rest
      refine (first.andThen next ⟨es, e, run⟩).congr fun _ _ => ?_
      rw [runsAll_cons_iff]
      rfl

/-- The outcome of some handlers is exact. -/
theorem Handler.runAll_exact (guarded : Bool) :
    ∀ handlers : List Handler,
      Handler.countAll Stmt.isUnhandled handlers = 0 →
      ∀ states, (Handler.runAll guarded handlers states).Exact guarded states
        (Handler.RunsAny handlers)
  | [], _, states => by
      constructor <;>
        simp [Handler.runAll, Outcome.none, Handler.RunsAny]
  | .mk exceptions body :: rest, handled, states => by
      have none : Stmt.countAll Stmt.isUnhandled body = 0 ∧
          Handler.countAll Stmt.isUnhandled rest = 0 := by
        simp only [Handler.countAll, Handler.count] at handled
        omega
      have first := Stmt.runAll_exact guarded body none.1 states
      have others := Handler.runAll_exact guarded rest none.2 states
      refine (first.append others).congr fun _ _ => ?_
      simp [Handler.RunsAny, Handler.body]

end

/-! ## The audit of a stub -/

/-- The runs of a stub. -/
def Runs (s : Stub) : Behaviour :=
  Stmt.RunsAll anyHandler s.body

/-- The way out that a run of a stub takes. -/
def pathOf (es : List Event) (e : Ending Unit) : ExitPath :=
  (PathState.start.after es).leave e.exit

/-- What the ending of a run is an offence by itself. -/
def endingOffences (s : Stub) : Ending Unit → List Violation
  | .through => if s.returnsVoid then [] else [.fallsOffEnd]
  | .thrown _ => [.unwind]
  | .returned _ => []

/-- What a run of a stub does wrong: its offences, its ending, and its leaks. -/
def violationsOf (s : Stub) (es : List Event) (e : Ending Unit) :
    List Violation :=
  PathState.start.offences es ++ s.endingOffences e
    ++ (pathOf es e).leaked.map fun slot => .leak slot e.exit

theorem mem_note {seen : List Violation} {v w : Violation} :
    w ∈ Audit.note seen v ↔ w ∈ seen ∨ w = v := by
  unfold Audit.note
  split
  · rename_i h
    have member : v ∈ seen := by simpa using h
    constructor
    · exact Or.inl
    · rintro (h | rfl)
      · exact h
      · exact member
  · simp

theorem nodup_note {seen : List Violation} {v : Violation}
    (h : seen.Nodup) : (Audit.note seen v).Nodup := by
  unfold Audit.note
  split
  · exact h
  · rename_i fresh
    have fresh : v ∉ seen := by simpa using fresh
    exact List.Nodup.append h (List.nodup_singleton v) (by simpa using fresh)

theorem mem_foldl_note {vs seen : List Violation} {w : Violation} :
    w ∈ vs.foldl Audit.note seen ↔ w ∈ seen ∨ w ∈ vs := by
  induction vs generalizing seen with
  | nil =>
      simp
  | cons v vs ih =>
      rw [List.foldl_cons, ih, mem_note, List.mem_cons, or_assoc]

theorem nodup_foldl_note {vs seen : List Violation} (h : seen.Nodup) :
    (vs.foldl Audit.note seen).Nodup := by
  induction vs generalizing seen with
  | nil =>
      exact h
  | cons v vs ih =>
      exact ih (nodup_note h)

/-- The ways out of an audit are the exits among the findings. -/
theorem mem_audit_paths {s : Stub} {path : ExitPath} :
    path ∈ s.audit.paths ↔ .exit path ∈ s.findings := by
  simp only [audit, Audit.ofFindings, List.mem_filterMap]
  constructor
  · rintro ⟨f, hf, hp⟩
    cases f with
    | offence v => simp [Audit.path?] at hp
    | exit path' =>
        obtain rfl : path' = path := by simpa [Audit.path?] using hp
        exact hf
  · exact fun h => ⟨_, h, rfl⟩

/-- The violations of an audit are those of the findings. -/
theorem mem_audit_violations {s : Stub} {v : Violation} :
    v ∈ s.audit.violations ↔
      ∃ f ∈ s.findings, v ∈ Audit.violationsOf f := by
  simp [audit, Audit.ofFindings, mem_foldl_note]

/-- What is noted on a run of a whole stub. -/
def runFindings (s : Stub) (es : List Event) (e : Ending Unit) :
    List Finding :=
  (PathState.start.offences es ++ s.endingOffences e).map .offence
    ++ [.exit (pathOf es e)]

/-- Reaching the end of the body is noted only when the body has been left. -/
theorem mem_runFindings_iff {s : Stub} {es : List Event} {e : Ending Unit}
    {f : Finding} :
    f ∈ s.runFindings es e ↔
      f ∈ PathState.start.findings false es e ∨
        (e = .through ∧
          ((s.returnsVoid = false ∧ f = .offence .fallsOffEnd) ∨
            f = .exit ((PathState.start.after es).leave .normal))) := by
  cases e with
  | through =>
      cases h : s.returnsVoid <;>
        simp [runFindings, PathState.findings, Ending.findings,
          endingOffences, pathOf, Ending.exit, h]
  | thrown x =>
      simp [runFindings, PathState.findings, Ending.findings, endingOffences,
        pathOf, Ending.exit]
  | returned exit =>
      simp [runFindings, PathState.findings, Ending.findings, endingOffences,
        pathOf, Ending.exit]

/-- The findings of a stub are those of its runs. -/
theorem mem_findings_iff {s : Stub}
    (handled : s.count Stmt.isUnhandled = 0) {f : Finding} :
    f ∈ s.findings ↔ ∃ es e, s.Runs es e ∧ f ∈ s.runFindings es e := by
  have ran := Stmt.runAll_exact false s.body handled [.start]
  have through : ∀ τ, τ ∈ (Stmt.runAll false s.body [.start]).through ↔
      ∃ es, s.Runs es .through ∧ τ = PathState.start.after es := by
    intro τ
    simpa [Runs] using ran.mem_through τ
  have noted : ∀ f, f ∈ (Stmt.runAll false s.body [.start]).findings ↔
      ∃ es e, s.Runs es e ∧ f ∈ PathState.start.findings false es e := by
    intro f
    simpa [Runs] using ran.mem_findings f
  simp only [findings, List.mem_append, List.mem_map, noted]
  constructor
  · rintro ((⟨es, e, run, hf⟩ | missing) | ⟨τ, hτ, rfl⟩)
    · exact ⟨es, e, run, mem_runFindings_iff.mpr (Or.inl hf)⟩
    · split at missing
      · simp at missing
      · rename_i reached
        simp only [Bool.or_eq_true, List.isEmpty_iff, not_or,
          Bool.not_eq_true] at reached
        obtain ⟨τ, hτ⟩ := List.exists_mem_of_ne_nil _ reached.1
        obtain ⟨es, run, -⟩ := (through τ).mp hτ
        exact ⟨es, .through, run, mem_runFindings_iff.mpr
          (Or.inr ⟨rfl, Or.inl ⟨reached.2, by simpa using missing⟩⟩)⟩
    · obtain ⟨es, run, rfl⟩ := (through τ).mp hτ
      exact ⟨es, .through, run,
        mem_runFindings_iff.mpr (Or.inr ⟨rfl, Or.inr rfl⟩)⟩
  · rintro ⟨es, e, run, hf⟩
    rcases mem_runFindings_iff.mp hf with hf | ⟨rfl, ⟨result, rfl⟩ | rfl⟩
    · exact Or.inl (Or.inl ⟨es, e, run, hf⟩)
    · have reached : (Stmt.runAll false s.body [.start]).through ≠ [] :=
        List.ne_nil_of_mem ((through _).mpr ⟨es, run, rfl⟩)
      left
      right
      simp [reached, result]
    · exact Or.inr ⟨_, (through _).mpr ⟨es, run, rfl⟩, rfl⟩

/--
The audit of a stub is exact: its ways out are those of the runs of the stub,
with what each run acquired, released, handed on and left held, and its
violations, each listed once, are what the runs do wrong.
-/
theorem audit_exact (s : Stub) (handled : s.count Stmt.isUnhandled = 0) :
    (∀ path, path ∈ s.audit.paths ↔
        ∃ es e, s.Runs es e ∧ path = pathOf es e) ∧
      (∀ v, v ∈ s.audit.violations ↔
        ∃ es e, s.Runs es e ∧ v ∈ s.violationsOf es e) ∧
      s.audit.violations.Nodup := by
  refine ⟨?_, ?_, ?_⟩
  · intro path
    rw [mem_audit_paths, mem_findings_iff handled]
    simp [runFindings]
  · intro v
    rw [mem_audit_violations]
    simp only [mem_findings_iff handled]
    constructor
    · rintro ⟨f, ⟨es, e, run, hf⟩, hv⟩
      refine ⟨es, e, run, ?_⟩
      simp only [runFindings, List.mem_append, List.mem_map,
        List.mem_singleton] at hf
      rcases hf with ⟨w, hw, rfl⟩ | rfl
      · obtain rfl : v = w := by simpa [Audit.violationsOf] using hv
        exact List.mem_append_left _ (List.mem_append.mpr hw)
      · exact List.mem_append_right _ hv
    · rintro ⟨es, e, run, hv⟩
      rcases List.mem_append.mp hv with hv | hv
      · exact ⟨.offence v, ⟨es, e, run,
          List.mem_append_left _ (List.mem_map_of_mem hv)⟩,
          List.mem_singleton.mpr rfl⟩
      · exact ⟨.exit (pathOf es e), ⟨es, e, run,
          List.mem_append_right _ (List.mem_singleton.mpr rfl)⟩, hv⟩
  · exact nodup_foldl_note List.nodup_nil

/-- A stub with a call in a handler, from which an exception gets out. -/
def rethrowing : Stub where
  symbol := "Java_a_B_f"
  returnType := "jint"
  params := []
  slots := []
  body :=
    [.acquire 0 [.ret .default .acquireFailed],
      .tryCatch
        [.call "f();", .release 0 .commit, .ret .default .normal]
        [.mk .std [.release 0 .abort, .ret .default .nativeException],
          .mk .any [.ifThen "again" [.call "g();"], .release 0 .abort]]]

theorem audit_exact_rethrowing :
    rethrowing.count Stmt.isUnhandled = 0 ∧
      (∃ es e, rethrowing.Runs es e ∧ ⟨.unwind, 1, 0, 0, [0]⟩ = pathOf es e) ∧
      ∃ es e, rethrowing.Runs es e ∧
        .leak 0 .unwind ∈ rethrowing.violationsOf es e := by
  have handled : rethrowing.count Stmt.isUnhandled = 0 := by decide
  refine ⟨handled, ?_, ?_⟩
  · exact ((audit_exact rethrowing handled).1 _).mp (by decide)
  · exact ((audit_exact rethrowing handled).2.1 _).mp (by decide)

end Stub
end NativeGlue
