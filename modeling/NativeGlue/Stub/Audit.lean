import NativeGlue.Stub.Basic

/-!
# Audit of a stub

**Input.** A stub, whose body acquires, releases and hands on resources.

**Algorithm.** Every way through the body is followed with a record of what is
held. A condition may hold or not, an acquisition with a failure block may
fail, and a call may throw into any handler of the innermost `tryCatch` around
it; without one, the exception leaves the stub.

**Result.** The ways out of the stub with what each acquired, released, handed
on and left held, and the violations found on them. A stub is clean if there is
no violation.
-/

namespace NativeGlue
namespace Stub

/-- What a path has done so far with resources. -/
structure PathState where
  /-- Slots that are held, in the order of acquisition. -/
  held : List Nat
  acquired : Nat
  released : Nat
  transferred : Nat
deriving DecidableEq, Repr, Inhabited

/-- The state at the start of a stub. -/
def PathState.start : PathState := ⟨[], 0, 0, 0⟩

/-- A way out of a stub. -/
structure ExitPath where
  exit : Exit
  acquired : Nat
  released : Nat
  transferred : Nat
  /-- Slots that are still held. -/
  leaked : List Nat
deriving DecidableEq, Repr, Inhabited

/-- The way out from a state. -/
def PathState.leave (state : PathState) (exit : Exit) : ExitPath :=
  ⟨exit, state.acquired, state.released, state.transferred, state.held⟩

/-- What a stub does wrong. -/
inductive Violation where
  | leak (slot : Nat) (exit : Exit)
  | doubleAcquire (slot : Nat)
  /-- A release of a slot that is not held, or no longer. -/
  | releaseUnheld (slot : Nat)
  | transferUnheld (slot : Nat)
  /-- A C++ exception can leave the stub. -/
  | unwind
  /-- A stub with a result can end without one. -/
  | fallsOffEnd
deriving DecidableEq, Repr, Inhabited

/-- The wording of a violation. -/
def Violation.message : Violation → String
  | leak slot exit =>
      "slot " ++ toString slot ++ " leaks on " ++ exit.name ++ " exit"
  | doubleAcquire slot => "slot " ++ toString slot ++ " acquired twice"
  | releaseUnheld slot =>
      "slot " ++ toString slot ++ " released while not held"
  | transferUnheld slot =>
      "slot " ++ toString slot ++ " transferred while not held"
  | unwind => "native exception escapes the stub"
  | fallsOffEnd => "non-void stub reaches end without return"

/-- What is noted on the way: an offence, or an exit. -/
inductive Finding where
  | offence (violation : Violation)
  | exit (path : ExitPath)
deriving DecidableEq, Repr, Inhabited

/-- The outcome of statements run from some states. -/
structure Outcome where
  /-- The states in which control goes on. -/
  through : List PathState
  /-- The states in which an exception goes to the `tryCatch` around. -/
  thrown : List PathState
  findings : List Finding
deriving DecidableEq, Repr, Inhabited

namespace Outcome

/-- Control goes on in one state, and nothing is noted. -/
def pass (state : PathState) : Outcome := ⟨[state], [], []⟩

/-- Nothing runs. -/
def none : Outcome := ⟨[], [], []⟩

/-- Two outcomes side by side. -/
def append (a b : Outcome) : Outcome :=
  ⟨a.through ++ b.through, a.thrown ++ b.thrown, a.findings ++ b.findings⟩

/-- The outcomes from several states, one after another. -/
def ofStates (states : List PathState) (run : PathState → Outcome) :
    Outcome :=
  states.foldr (fun state rest => (run state).append rest) none

/-- An outcome followed by what runs in the states where control goes on. -/
def andThen (a : Outcome) (run : List PathState → Outcome) : Outcome :=
  let b := run a.through
  ⟨b.through, a.thrown ++ b.thrown, a.findings ++ b.findings⟩

end Outcome

namespace PathState

/-- A slot is acquired. -/
def acquire (state : PathState) (slot : Nat) : Outcome :=
  if state.held.contains slot then
    ⟨[state], [], [.offence (.doubleAcquire slot)]⟩
  else
    .pass
      { state with
        held := state.held ++ [slot]
        acquired := state.acquired + 1 }

/-- A slot is released. -/
def release (state : PathState) (slot : Nat) : Outcome :=
  if state.held.contains slot then
    .pass
      { state with
        held := state.held.erase slot
        released := state.released + 1 }
  else
    ⟨[state], [], [.offence (.releaseUnheld slot)]⟩

/-- A slot is handed on. -/
def transfer (state : PathState) (slot : Nat) : Outcome :=
  if state.held.contains slot then
    .pass
      { state with
        held := state.held.erase slot
        transferred := state.transferred + 1 }
  else
    ⟨[state], [], [.offence (.transferUnheld slot)]⟩

/-- The implementation is called; inside a `tryCatch` it may throw there. -/
def call (guarded : Bool) (state : PathState) : Outcome :=
  if guarded then
    ⟨[state], [state], []⟩
  else
    ⟨[state], [], [.offence .unwind, .exit (state.leave .unwind)]⟩

end PathState

mutual

/-- Runs a statement; `guarded` tells that a `tryCatch` is around it. -/
def Stmt.run (guarded : Bool) : Stmt → PathState → Outcome
  | .line _, state => .pass state
  | .raise _ _, state => .pass state
  | .acquire slot [], state => state.acquire slot
  | .acquire slot (s :: rest), state =>
      (Stmt.runAll guarded (s :: rest) [state]).append (state.acquire slot)
  | .release slot _, state => state.release slot
  | .transfer slot _, state => state.transfer slot
  | .call _, state => state.call guarded
  | .ifThen _ body, state =>
      (Stmt.runAll guarded body [state]).append (.pass state)
  | .tryCatch body handlers, state =>
      let tried := Stmt.runAll true body [state]
      Outcome.append { tried with thrown := [] }
        (Handler.runAll guarded handlers tried.thrown)
  | .ret _ exit, state => ⟨[], [], [.exit (state.leave exit)]⟩

/-- Runs a block from each of some states. -/
def Stmt.runAll (guarded : Bool) : List Stmt → List PathState → Outcome
  | [], states => ⟨states, [], []⟩
  | s :: rest, states =>
      (Outcome.ofStates states (Stmt.run guarded s)).andThen
        (Stmt.runAll guarded rest)

/-- Runs a handler from each of the states in which it catches. -/
def Handler.run (guarded : Bool) : Handler → List PathState → Outcome
  | .mk _ body, states => Stmt.runAll guarded body states

/-- Runs each of some handlers from the same states. -/
def Handler.runAll (guarded : Bool) : List Handler → List PathState → Outcome
  | [], _ => .none
  | h :: rest, states =>
      (Handler.run guarded h states).append
        (Handler.runAll guarded rest states)

end

/-- The ways out of a stub, and its violations, each once. -/
structure Audit where
  paths : List ExitPath
  violations : List Violation
deriving DecidableEq, Repr, Inhabited

namespace Audit

/-- A list with one more element, unless it is there. -/
def note (seen : List Violation) (v : Violation) : List Violation :=
  if seen.contains v then seen else seen ++ [v]

/-- The violations of a finding: those of an exit are its leaks. -/
def violationsOf : Finding → List Violation
  | .offence v => [v]
  | .exit path => path.leaked.map fun slot => .leak slot path.exit

/-- The way out that a finding reports. -/
def path? : Finding → Option ExitPath
  | .offence _ => none
  | .exit path => some path

/-- The audit that findings amount to. -/
def ofFindings (findings : List Finding) : Audit where
  paths := findings.filterMap path?
  violations := (findings.flatMap violationsOf).foldl note []

/-- No violation was found. -/
def isClean (a : Audit) : Bool :=
  a.violations.isEmpty

/-- The ways out of one kind. -/
def pathsOf (a : Audit) (exit : Exit) : List ExitPath :=
  a.paths.filter fun path => path.exit = exit

end Audit

/-- Everything that is found on the ways through a stub. -/
def findings (s : Stub) : List Finding :=
  let ran := Stmt.runAll false s.body [.start]
  let missing : List Finding :=
    if ran.through.isEmpty || s.returnsVoid then []
    else [.offence .fallsOffEnd]
  ran.findings ++ missing
    ++ ran.through.map fun state => .exit (state.leave .normal)

/-- The audit of a stub. -/
def audit (s : Stub) : Audit :=
  .ofFindings s.findings

end Stub
end NativeGlue
