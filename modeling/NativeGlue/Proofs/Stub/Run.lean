import Mathlib.Tactic
import NativeGlue.Stub.Audit

/-!
# Runs of a stub

A run is one way through the body of a stub. It is described in two steps that
do not know of each other:

* `Stmt.Runs` says which events a statement may bring about and how control
  leaves it. Nothing here depends on what is held.
* `PathState.after` accounts for the events: which slots are held after them,
  how many were acquired, released and handed on, and which events were
  offences.

Which handler of a `tryCatch` takes an exception is a parameter of the runs,
together with the type of exceptions. An exception that no handler takes goes
on to the `tryCatch` around, and so does one that is thrown in a handler.
-/

namespace NativeGlue
namespace Stub

/-- Something that a run does. -/
inductive Event where
  | line (text : String)
  /-- The slot is acquired. -/
  | acquired (slot : Nat)
  /-- The acquisition of the slot fails. -/
  | failed (slot : Nat)
  | released (slot : Nat) (mode : ReleaseMode)
  | transferred (slot : Nat) (into : Option String)
  | called (text : String)
  /-- A condition is found to hold, or not to hold. -/
  | tested (condition : String) (holds : Bool)
  | raised (className : String) (message : String)
deriving DecidableEq, Repr

/-- How control leaves a statement or a block. -/
inductive Ending (ε : Type) where
  /-- It goes on with what follows. -/
  | through
  | thrown (exception : ε)
  | returned (exit : Exit)
deriving DecidableEq, Repr

/-- The way out of a stub whose body ends so. -/
def Ending.exit {ε : Type} : Ending ε → Exit
  | .through => .normal
  | .thrown _ => .unwind
  | .returned exit => exit

/-- The statements of a handler. -/
def Handler.body : Handler → List Stmt
  | .mk _ body => body

/-! ## Events and endings -/

section Runs

variable {ε : Type}

mutual

/-- A statement can bring about these events and end so. -/
inductive Stmt.Runs (takes : ε → List Handler → Handler → Prop) :
    Stmt → List Event → Ending ε → Prop
  | line (text : String) :
      Stmt.Runs takes (.line text) [.line text] .through
  | raise (className message : String) :
      Stmt.Runs takes (.raise className message)
        [.raised className message] .through
  | acquire (slot : Nat) (onFailure : List Stmt) :
      Stmt.Runs takes (.acquire slot onFailure) [.acquired slot] .through
  | fail {slot : Nat} {onFailure : List Stmt} {es : List Event}
      {e : Ending ε} (care : onFailure ≠ [])
      (run : Stmt.RunsAll takes onFailure es e) :
      Stmt.Runs takes (.acquire slot onFailure) (.failed slot :: es) e
  | release (slot : Nat) (mode : ReleaseMode) :
      Stmt.Runs takes (.release slot mode) [.released slot mode] .through
  | transfer (slot : Nat) (into : Option String) :
      Stmt.Runs takes (.transfer slot into) [.transferred slot into] .through
  | call (text : String) :
      Stmt.Runs takes (.call text) [.called text] .through
  | throw (text : String) (x : ε) :
      Stmt.Runs takes (.call text) [.called text] (.thrown x)
  | skip (condition : String) (body : List Stmt) :
      Stmt.Runs takes (.ifThen condition body)
        [.tested condition false] .through
  | enter {condition : String} {body : List Stmt} {es : List Event}
      {e : Ending ε} (run : Stmt.RunsAll takes body es e) :
      Stmt.Runs takes (.ifThen condition body)
        (.tested condition true :: es) e
  | tried {body : List Stmt} {handlers : List Handler} {es : List Event}
      {e : Ending ε} (run : Stmt.RunsAll takes body es e)
      (calm : ∀ x, e ≠ .thrown x) :
      Stmt.Runs takes (.tryCatch body handlers) es e
  | caught {body : List Stmt} {handlers : List Handler} {h : Handler}
      {x : ε} {es fs : List Event} {e : Ending ε}
      (run : Stmt.RunsAll takes body es (.thrown x))
      (member : h ∈ handlers) (taken : takes x handlers h)
      (handled : Stmt.RunsAll takes h.body fs e) :
      Stmt.Runs takes (.tryCatch body handlers) (es ++ fs) e
  | uncaught {body : List Stmt} {handlers : List Handler} {x : ε}
      {es : List Event} (run : Stmt.RunsAll takes body es (.thrown x))
      (free : ∀ h ∈ handlers, ¬ takes x handlers h) :
      Stmt.Runs takes (.tryCatch body handlers) es (.thrown x)
  | ret (value : ReturnValue) (exit : Exit) :
      Stmt.Runs takes (.ret value exit) [] (.returned exit)

/-- A block can bring about these events and end so. -/
inductive Stmt.RunsAll (takes : ε → List Handler → Handler → Prop) :
    List Stmt → List Event → Ending ε → Prop
  | nil : Stmt.RunsAll takes [] [] .through
  | cons {s : Stmt} {rest : List Stmt} {es fs : List Event} {e : Ending ε}
      (first : Stmt.Runs takes s es .through)
      (next : Stmt.RunsAll takes rest fs e) :
      Stmt.RunsAll takes (s :: rest) (es ++ fs) e
  | stop {s : Stmt} {rest : List Stmt} {es : List Event} {e : Ending ε}
      (first : Stmt.Runs takes s es e) (left : e ≠ .through) :
      Stmt.RunsAll takes (s :: rest) es e

end

section Inversion

variable {takes : ε → List Handler → Handler → Prop}
variable {es : List Event} {e : Ending ε}

theorem runs_line_iff {text : String} :
    Stmt.Runs takes (.line text) es e ↔ es = [.line text] ∧ e = .through := by
  constructor
  · rintro ⟨⟩
    exact ⟨rfl, rfl⟩
  · rintro ⟨rfl, rfl⟩
    exact .line text

theorem runs_raise_iff {className message : String} :
    Stmt.Runs takes (.raise className message) es e ↔
      es = [.raised className message] ∧ e = .through := by
  constructor
  · rintro ⟨⟩
    exact ⟨rfl, rfl⟩
  · rintro ⟨rfl, rfl⟩
    exact .raise className message

theorem runs_release_iff {slot : Nat} {mode : ReleaseMode} :
    Stmt.Runs takes (.release slot mode) es e ↔
      es = [.released slot mode] ∧ e = .through := by
  constructor
  · rintro ⟨⟩
    exact ⟨rfl, rfl⟩
  · rintro ⟨rfl, rfl⟩
    exact .release slot mode

theorem runs_transfer_iff {slot : Nat} {into : Option String} :
    Stmt.Runs takes (.transfer slot into) es e ↔
      es = [.transferred slot into] ∧ e = .through := by
  constructor
  · rintro ⟨⟩
    exact ⟨rfl, rfl⟩
  · rintro ⟨rfl, rfl⟩
    exact .transfer slot into

theorem runs_ret_iff {value : ReturnValue} {exit : Exit} :
    Stmt.Runs takes (.ret value exit) es e ↔
      es = [] ∧ e = .returned exit := by
  constructor
  · rintro ⟨⟩
    exact ⟨rfl, rfl⟩
  · rintro ⟨rfl, rfl⟩
    exact .ret value exit

theorem runs_acquire_iff {slot : Nat} {onFailure : List Stmt} :
    Stmt.Runs takes (.acquire slot onFailure) es e ↔
      (es = [.acquired slot] ∧ e = .through) ∨
        (onFailure ≠ [] ∧ ∃ fs, Stmt.RunsAll takes onFailure fs e ∧
          es = .failed slot :: fs) := by
  constructor
  · intro h
    cases h with
    | acquire => exact Or.inl ⟨rfl, rfl⟩
    | fail care run => exact Or.inr ⟨care, _, run, rfl⟩
  · rintro (⟨rfl, rfl⟩ | ⟨care, fs, run, rfl⟩)
    · exact .acquire slot onFailure
    · exact .fail care run

theorem runs_call_iff {text : String} :
    Stmt.Runs takes (.call text) es e ↔
      es = [.called text] ∧ (e = .through ∨ ∃ x, e = .thrown x) := by
  constructor
  · intro h
    cases h with
    | call => exact ⟨rfl, Or.inl rfl⟩
    | throw text x => exact ⟨rfl, Or.inr ⟨x, rfl⟩⟩
  · rintro ⟨rfl, rfl | ⟨x, rfl⟩⟩
    · exact .call text
    · exact .throw text x

theorem runs_ifThen_iff {condition : String} {body : List Stmt} :
    Stmt.Runs takes (.ifThen condition body) es e ↔
      (es = [.tested condition false] ∧ e = .through) ∨
        ∃ fs, Stmt.RunsAll takes body fs e ∧
          es = .tested condition true :: fs := by
  constructor
  · intro h
    cases h with
    | skip => exact Or.inl ⟨rfl, rfl⟩
    | enter run => exact Or.inr ⟨_, run, rfl⟩
  · rintro (⟨rfl, rfl⟩ | ⟨fs, run, rfl⟩)
    · exact .skip condition body
    · exact .enter run

theorem runs_tryCatch_iff {body : List Stmt} {handlers : List Handler} :
    Stmt.Runs takes (.tryCatch body handlers) es e ↔
      (Stmt.RunsAll takes body es e ∧ ∀ x, e ≠ .thrown x) ∨
        ∃ x fs, Stmt.RunsAll takes body fs (.thrown x) ∧
          ((∃ h ∈ handlers, takes x handlers h ∧
              ∃ gs, Stmt.RunsAll takes h.body gs e ∧ es = fs ++ gs) ∨
            ((∀ h ∈ handlers, ¬ takes x handlers h) ∧
              es = fs ∧ e = .thrown x)) := by
  constructor
  · intro h
    cases h with
    | tried run calm => exact Or.inl ⟨run, calm⟩
    | caught run member taken handled =>
        exact Or.inr
          ⟨_, _, run, Or.inl ⟨_, member, taken, _, handled, rfl⟩⟩
    | uncaught run free =>
        exact Or.inr ⟨_, _, run, Or.inr ⟨free, rfl, rfl⟩⟩
  · rintro (⟨run, calm⟩ | ⟨x, fs, run,
      ⟨h, member, taken, gs, handled, rfl⟩ | ⟨free, rfl, rfl⟩⟩)
    · exact .tried run calm
    · exact .caught run member taken handled
    · exact .uncaught run free

theorem runsAll_nil_iff :
    Stmt.RunsAll takes [] es e ↔ es = [] ∧ e = .through := by
  constructor
  · rintro ⟨⟩
    exact ⟨rfl, rfl⟩
  · rintro ⟨rfl, rfl⟩
    exact .nil

theorem runsAll_cons_iff {s : Stmt} {rest : List Stmt} :
    Stmt.RunsAll takes (s :: rest) es e ↔
      (∃ fs gs, Stmt.Runs takes s fs .through ∧
          Stmt.RunsAll takes rest gs e ∧ es = fs ++ gs) ∨
        (Stmt.Runs takes s es e ∧ e ≠ .through) := by
  constructor
  · intro h
    cases h with
    | cons first next => exact Or.inl ⟨_, _, first, next, rfl⟩
    | stop first left => exact Or.inr ⟨first, left⟩
  · rintro (⟨fs, gs, first, next, rfl⟩ | ⟨first, left⟩)
    · exact .cons first next
    · exact .stop first left

/-- A run of two blocks ends in the first, or goes on through the second. -/
theorem runsAll_append_iff {a b : List Stmt} :
    Stmt.RunsAll takes (a ++ b) es e ↔
      (∃ fs gs, Stmt.RunsAll takes a fs .through ∧
          Stmt.RunsAll takes b gs e ∧ es = fs ++ gs) ∨
        (Stmt.RunsAll takes a es e ∧ e ≠ .through) := by
  induction a generalizing es with
  | nil =>
      simp [runsAll_nil_iff]
  | cons s a ih =>
      simp only [List.cons_append, runsAll_cons_iff, ih]
      constructor
      · rintro (⟨fs, gs, first, ⟨hs, ks, next, rest, rfl⟩ | ⟨next, left⟩,
          rfl⟩ | ⟨first, left⟩)
        · exact .inl ⟨fs ++ hs, ks, .inl ⟨fs, hs, first, next, rfl⟩, rest,
            (List.append_assoc ..).symm⟩
        · exact .inr ⟨.inl ⟨fs, gs, first, next, rfl⟩, left⟩
        · exact .inr ⟨.inr ⟨first, left⟩, left⟩
      · rintro (⟨_, ks, ⟨fs, hs, first, next, rfl⟩ | ⟨-, left⟩, rest, rfl⟩ |
          ⟨⟨fs, gs, first, next, rfl⟩ | ⟨first, -⟩, left⟩)
        · exact .inl ⟨fs, hs ++ ks, first, .inl ⟨hs, ks, next, rest, rfl⟩,
            List.append_assoc ..⟩
        · exact absurd rfl left
        · exact .inl ⟨fs, gs, first, .inr ⟨next, left⟩, rfl⟩
        · exact .inr ⟨first, left⟩

/-- Where the first block always lets control through, the second runs too. -/
theorem runsAll_append_of_through {a b : List Stmt}
    (through : ∀ fs f, Stmt.RunsAll takes a fs f → f = .through)
    (run : Stmt.RunsAll takes (a ++ b) es e) :
    ∃ fs gs, Stmt.RunsAll takes a fs .through ∧
      Stmt.RunsAll takes b gs e ∧ es = fs ++ gs := by
  rcases runsAll_append_iff.mp run with both | ⟨first, left⟩
  · exact both
  · exact absurd (through es e first) left

theorem runsAll_singleton_iff {s : Stmt} :
    Stmt.RunsAll takes [s] es e ↔ Stmt.Runs takes s es e := by
  rw [runsAll_cons_iff]
  constructor
  · rintro (⟨fs, gs, first, rest, rfl⟩ | ⟨first, -⟩)
    · obtain ⟨rfl, rfl⟩ := runsAll_nil_iff.mp rest
      rwa [List.append_nil]
    · exact first
  · intro run
    by_cases through : e = .through
    · subst through
      exact .inl ⟨es, [], run, .nil, (List.append_nil es).symm⟩
    · exact .inr ⟨run, through⟩

/-- Statements that only bring about an event each do so one after another. -/
theorem runsAll_map_iff {α : Type} {stmt : α → Stmt} (event : α → Event)
    (single : ∀ x fs f, Stmt.Runs takes (stmt x) fs f ↔
      fs = [event x] ∧ f = .through) (xs : List α) :
    Stmt.RunsAll takes (xs.map stmt) es e ↔
      es = xs.map event ∧ e = .through := by
  induction xs generalizing es with
  | nil =>
      exact runsAll_nil_iff
  | cons x xs ih =>
      simp only [List.map_cons, runsAll_cons_iff, single, ih]
      constructor
      · rintro (⟨fs, gs, ⟨rfl, -⟩, ⟨rfl, rfl⟩, rfl⟩ | ⟨⟨-, rfl⟩, left⟩)
        · exact ⟨rfl, rfl⟩
        · exact absurd rfl left
      · rintro ⟨rfl, rfl⟩
        exact .inl ⟨_, _, ⟨rfl, trivial⟩, ⟨rfl, rfl⟩, rfl⟩

end Inversion

section Progress

variable (takes : ε → List Handler → Handler → Prop) (holds : String → Bool)

/-- Every condition is found to hold just if it does. -/
def Tests (es : List Event) : Prop :=
  ∀ condition found, .tested condition found ∈ es → found = holds condition

variable {holds}

theorem Tests.append {es fs : List Event} (first : Tests holds es)
    (next : Tests holds fs) : Tests holds (es ++ fs) := by
  intro condition found member
  rcases List.mem_append.mp member with before | behind
  · exact first condition found before
  · exact next condition found behind

variable (holds)

mutual

/-- A statement never gets stuck, whichever conditions hold. -/
theorem Stmt.exists_runs :
    ∀ s : Stmt, ∃ es e, Stmt.Runs takes s es e ∧ Tests holds es
  | .line text => ⟨_, _, .line text, by simp [Tests]⟩
  | .raise className message =>
      ⟨_, _, .raise className message, by simp [Tests]⟩
  | .acquire slot onFailure => ⟨_, _, .acquire slot onFailure, by simp [Tests]⟩
  | .release slot mode => ⟨_, _, .release slot mode, by simp [Tests]⟩
  | .transfer slot into => ⟨_, _, .transfer slot into, by simp [Tests]⟩
  | .call text => ⟨_, _, .call text, by simp [Tests]⟩
  | .ret value exit => ⟨_, _, .ret value exit, by simp [Tests]⟩
  | .ifThen condition body => by
      cases found : holds condition with
      | false => exact ⟨_, _, .skip condition body, by simp [Tests, found]⟩
      | true =>
          obtain ⟨es, e, run, tests⟩ := Stmt.exists_runsAll body
          have test : Tests holds [.tested condition true] := by
            simp [Tests, found]
          exact ⟨_, e, .enter run, test.append tests⟩
  | .tryCatch body handlers => by
      obtain ⟨es, e, run, tests⟩ := Stmt.exists_runsAll body
      have handled := Handler.exists_runsAll handlers
      cases e with
      | through => exact ⟨es, .through, .tried run (by simp), tests⟩
      | returned exit => exact ⟨es, .returned exit, .tried run (by simp), tests⟩
      | thrown x =>
          by_cases free : ∀ h ∈ handlers, ¬ takes x handlers h
          · exact ⟨es, .thrown x, .uncaught run free, tests⟩
          · push Not at free
            obtain ⟨h, member, taken⟩ := free
            obtain ⟨fs, f, rest, others⟩ := handled h member
            exact ⟨es ++ fs, f, .caught run member taken rest,
              tests.append others⟩

/-- A block never gets stuck. -/
theorem Stmt.exists_runsAll :
    ∀ body : List Stmt, ∃ es e, Stmt.RunsAll takes body es e ∧ Tests holds es
  | [] => ⟨_, _, .nil, by simp [Tests]⟩
  | s :: rest => by
      obtain ⟨es, e, first, tests⟩ := Stmt.exists_runs s
      by_cases through : e = .through
      · subst through
        obtain ⟨fs, f, next, others⟩ := Stmt.exists_runsAll rest
        exact ⟨es ++ fs, f, .cons first next, tests.append others⟩
      · exact ⟨es, e, .stop first through, tests⟩

/-- No handler among some gets stuck. -/
theorem Handler.exists_runsAll :
    ∀ handlers : List Handler, ∀ h ∈ handlers,
      ∃ es e, Stmt.RunsAll takes h.body es e ∧ Tests holds es
  | [] => by simp
  | .mk exceptions body :: rest => by
      intro h member
      rcases List.mem_cons.mp member with rfl | member
      · exact Stmt.exists_runsAll body
      · exact Handler.exists_runsAll rest h member

end

end Progress

/-! ## Counting statements -/

section Counting

variable {p : Stmt → Bool}

theorem Stmt.countAll_eq_zero_iff {body : List Stmt} :
    Stmt.countAll p body = 0 ↔ ∀ s ∈ body, s.count p = 0 := by
  induction body with
  | nil => simp [Stmt.countAll]
  | cons s rest ih => simp [Stmt.countAll, ih]

theorem Stmt.countAll_append (a b : List Stmt) :
    Stmt.countAll p (a ++ b) = Stmt.countAll p a + Stmt.countAll p b := by
  induction a with
  | nil => simp [Stmt.countAll]
  | cons s a ih => simp [Stmt.countAll, ih, Nat.add_assoc]

theorem Handler.countAll_eq_zero_iff {handlers : List Handler} :
    Handler.countAll p handlers = 0 ↔
      ∀ h ∈ handlers, Stmt.countAll p h.body = 0 := by
  induction handlers with
  | nil => simp [Handler.countAll]
  | cons h rest ih =>
      cases h with
      | mk exceptions body =>
          simp [Handler.countAll, Handler.count, Handler.body, ih]

/-- What is not in a statement, the statement is not itself. -/
theorem Stmt.eq_false_of_count {s : Stmt} (free : s.count p = 0) :
    p s = false := by
  cases s <;> simp_all [Stmt.count]

end Counting

/-! ## What events come from -/

section Origin

/-- What a statement brings about itself, without the statements in it. -/
def Stmt.events : Stmt → List Event
  | .line text => [.line text]
  | .acquire slot _ => [.acquired slot, .failed slot]
  | .release slot mode => [.released slot mode]
  | .transfer slot into => [.transferred slot into]
  | .call text => [.called text]
  | .ifThen condition _ => [.tested condition true, .tested condition false]
  | .raise className message => [.raised className message]
  | .tryCatch _ _ | .ret _ _ => []

/-- Events and an ending that statements with a property bring about. -/
structure ComeFrom (p : Stmt → Prop) (es : List Event) (e : Ending ε) :
    Prop where
  events : ∀ event ∈ es, ∃ s, p s ∧ event ∈ s.events
  exit : ∀ exit, e = .returned exit → ∃ value, p (.ret value exit)

section

variable {p : Stmt → Prop} {es fs : List Event} {e f : Ending ε}

theorem ComeFrom.single {s : Stmt} {event : Event} (has : p s)
    (own : event ∈ s.events) (running : ∀ exit, e ≠ .returned exit) :
    ComeFrom p [event] e :=
  ⟨fun _ member => ⟨s, has, List.mem_singleton.mp member ▸ own⟩,
    fun exit eq => absurd eq (running exit)⟩

theorem ComeFrom.append (first : ComeFrom p es e) (next : ComeFrom p fs f) :
    ComeFrom p (es ++ fs) f :=
  ⟨fun event member => (List.mem_append.mp member).elim
    (first.events event) (next.events event), next.exit⟩

end

/-- Without statements of a kind in a block, its runs come from the others. -/
theorem Stmt.RunsAll.comeFrom {takes : ε → List Handler → Handler → Prop}
    {q : Stmt → Bool} {body : List Stmt} {es : List Event} {e : Ending ε}
    (run : Stmt.RunsAll takes body es e) (free : Stmt.countAll q body = 0) :
    ComeFrom (fun s => q s = false) es e := by
  -- On the run, with the same claim for single statements as first motive.
  induction run using @Stmt.RunsAll.rec ε takes
    fun s es e _ => s.count q = 0 → ComeFrom (fun s => q s = false) es e with
  | line text free | raise className message free
  | acquire slot onFailure free | release slot mode free
  | transfer slot into free | call text free | throw text x free
  | skip condition body free =>
      exact .single (Stmt.eq_false_of_count free) (by simp [events]) (by simp)
  | ret value exit free =>
      refine ⟨by simp, fun other eq => ?_⟩
      cases eq
      exact ⟨value, Stmt.eq_false_of_count free⟩
  | @fail slot onFailure es e care run ih free =>
      have own : ComeFrom (fun s => q s = false) [.failed slot]
          (Ending.through : Ending ε) :=
        .single (Stmt.eq_false_of_count free) (by simp [events]) (by simp)
      rw [Stmt.count, Nat.add_eq_zero_iff] at free
      exact own.append (ih free.2)
  | @enter condition body es e run ih free =>
      have own : ComeFrom (fun s => q s = false) [.tested condition true]
          (Ending.through : Ending ε) :=
        .single (Stmt.eq_false_of_count free) (by simp [events]) (by simp)
      rw [Stmt.count, Nat.add_eq_zero_iff] at free
      exact own.append (ih free.2)
  | tried run calm ih free =>
      rw [Stmt.count, Nat.add_eq_zero_iff, Nat.add_eq_zero_iff] at free
      exact ih free.2.1
  | caught run member taken handled ih ihHandler free =>
      rw [Stmt.count, Nat.add_eq_zero_iff, Nat.add_eq_zero_iff,
        Handler.countAll_eq_zero_iff] at free
      exact (ih free.2.1).append (ihHandler (free.2.2 _ member))
  | uncaught run clear ih free =>
      rw [Stmt.count, Nat.add_eq_zero_iff, Nat.add_eq_zero_iff] at free
      exact ih free.2.1
  | nil => exact ⟨by simp, by simp⟩
  | cons first next ih ihRest =>
      rw [Stmt.countAll, Nat.add_eq_zero_iff] at free
      exact (ih free.1).append (ihRest free.2)
  | stop first left ih =>
      rw [Stmt.countAll, Nat.add_eq_zero_iff] at free
      exact ih free.1

end Origin

end Runs

/-- Any handler of a `tryCatch` may take an exception. -/
def anyHandler (_ : Unit) (_ : List Handler) (_ : Handler) : Prop :=
  True

/-! ## Accounting -/

namespace PathState

/-- The state after an event; an offence changes nothing. -/
def step (state : PathState) : Event → PathState
  | .acquired slot =>
      if slot ∈ state.held then state
      else
        { state with
          held := state.held ++ [slot]
          acquired := state.acquired + 1 }
  | .released slot _ =>
      if slot ∈ state.held then
        { state with
          held := state.held.erase slot
          released := state.released + 1 }
      else state
  | .transferred slot _ =>
      if slot ∈ state.held then
        { state with
          held := state.held.erase slot
          transferred := state.transferred + 1 }
      else state
  | _ => state

/-- The offence that an event is in a state. -/
def offence? (state : PathState) : Event → Option Violation
  | .acquired slot =>
      if slot ∈ state.held then some (.doubleAcquire slot) else none
  | .released slot _ =>
      if slot ∈ state.held then none else some (.releaseUnheld slot)
  | .transferred slot _ =>
      if slot ∈ state.held then none else some (.transferUnheld slot)
  | _ => none

/-- The state after some events. -/
def after (state : PathState) (events : List Event) : PathState :=
  events.foldl step state

/-- The offences among some events. -/
def offences : PathState → List Event → List Violation
  | _, [] => []
  | state, event :: rest =>
      (state.offence? event).toList ++ offences (state.step event) rest

@[simp] theorem after_nil (state : PathState) :
    state.after [] = state := rfl

@[simp] theorem after_cons (state : PathState) (event : Event)
    (events : List Event) :
    state.after (event :: events) = (state.step event).after events := rfl

@[simp] theorem after_append (state : PathState) (es fs : List Event) :
    state.after (es ++ fs) = (state.after es).after fs := by
  simp [after]

@[simp] theorem offences_nil (state : PathState) :
    state.offences [] = [] := rfl

/-- The offences of a run are those of its parts, each from where it starts. -/
@[simp] theorem offences_append (state : PathState) (es fs : List Event) :
    state.offences (es ++ fs) =
      state.offences es ++ (state.after es).offences fs := by
  induction es generalizing state with
  | nil =>
      rfl
  | cons event es ih =>
      simp [offences, ih]

end PathState

end Stub
end NativeGlue
