import NativeGlue.Proofs.Plan.Balance
import NativeGlue.Proofs.Stub.Escape

/-!
# Order and mode of releases

A lowered stub releases what it acquired and did not hand on, the latest
first: with the elements of arrays copied back on the way to the normal exit,
and thrown away on every other.

The body is followed part by part. `Moves` says what the events of a part
acquire, release and hand on, each in order, and the parts add up. That nothing
is given away before it is acquired, or twice, is read off the audit: a clean
audit has no run with an offence.

Main statement: `released_in_order`.
-/

namespace NativeGlue
namespace Stub

/-! ## Giving resources away -/

namespace Event

/-- The slot that an event acquires. -/
def acquired? : Event → Option Nat
  | acquired slot => some slot
  | _ => none

/-- The slot that an event releases, and how. -/
def released? : Event → Option (Nat × ReleaseMode)
  | released slot mode => some (slot, mode)
  | _ => none

/-- The slot that an event hands on. -/
def transferred? : Event → Option Nat
  | transferred slot _ => some slot
  | _ => none

/-- The slot that an event gives away, in one way or the other. -/
def givenAway? : Event → Option Nat
  | released slot _ => some slot
  | transferred slot _ => some slot
  | _ => none

end Event

/-- Changes to arrays are copied back on the way to the normal exit alone. -/
def Exit.releaseMode : Exit → ReleaseMode
  | normal => .commit
  | _ => .abort

/-- The events of a run that gives its resources away in order. -/
structure ReleasedInOrder (es : List Event) (exit : Exit) : Prop where
  acquiredOnce : (es.filterMap Event.acquired?).Nodup
  released : es.filterMap Event.released? =
    ((es.filterMap Event.acquired?).filter fun slot =>
      slot ∉ es.filterMap Event.transferred?).reverse.map
        fun slot => (slot, exit.releaseMode)
  givenAwayOnce : ∀ before event behind slot,
    es = before ++ event :: behind → event.givenAway? = some slot →
      slot ∈ before.filterMap Event.acquired? ∧
        slot ∉ before.filterMap Event.givenAway?

section Accounting

/-- A state holds what some events acquired and did not give away. -/
structure PathState.HoldsAfter (state : PathState) (es : List Event) :
    Prop where
  nodup : state.held.Nodup
  subset : ∀ slot ∈ es.filterMap Event.givenAway?,
    slot ∈ es.filterMap Event.acquired?
  mem_held : ∀ slot, slot ∈ state.held ↔
    slot ∈ es.filterMap Event.acquired? ∧
      slot ∉ es.filterMap Event.givenAway?

variable {state : PathState} {es : List Event}

/-- Taking a held slot away leaves the others. -/
theorem PathState.HoldsAfter.giveAway (h : state.HoldsAfter es) {slot : Nat}
    (member : slot ∈ state.held) {event : Event}
    (acquired : event.acquired? = none)
    (given : event.givenAway? = some slot) {state' : PathState}
    (held : state'.held = state.held.erase slot) :
    state'.HoldsAfter (es ++ [event]) := by
  have inside := ((h.mem_held slot).mp member).1
  constructor
  · rw [held]
    exact h.nodup.erase slot
  · simp only [List.filterMap_append, List.filterMap_cons, given, acquired,
      List.filterMap_nil, List.append_nil, List.mem_append,
      List.mem_singleton]
    rintro other (before | rfl)
    · exact h.subset other before
    · exact inside
  · intro other
    simp only [List.filterMap_append, List.filterMap_cons, given, acquired,
      List.filterMap_nil, List.append_nil, List.mem_append,
      List.mem_singleton, held, h.nodup.mem_erase_iff, h.mem_held]
    tauto

theorem PathState.HoldsAfter.quiet (h : state.HoldsAfter es) {event : Event}
    (acquired : event.acquired? = none) (given : event.givenAway? = none)
    {state' : PathState} (held : state'.held = state.held) :
    state'.HoldsAfter (es ++ [event]) := by
  have sameAcquired : (es ++ [event]).filterMap Event.acquired? =
      es.filterMap Event.acquired? := by
    simp [acquired]
  have sameGiven : (es ++ [event]).filterMap Event.givenAway? =
      es.filterMap Event.givenAway? := by
    simp [given]
  constructor
  · rw [held]
    exact h.nodup
  · rw [sameAcquired, sameGiven]
    exact h.subset
  · rw [held, sameAcquired, sameGiven]
    exact h.mem_held

/-- An event that is no offence keeps the account of what is held. -/
theorem PathState.HoldsAfter.step (h : state.HoldsAfter es) {event : Event}
    (fine : state.offence? event = none)
    (once : ((es ++ [event]).filterMap Event.acquired?).Nodup) :
    (state.step event).HoldsAfter (es ++ [event]) := by
  cases event with
  | acquired slot =>
      have fresh : slot ∉ state.held := by
        simpa [PathState.offence?] using fine
      have new : slot ∉ es.filterMap Event.acquired? := by
        rw [List.filterMap_append, List.nodup_append] at once
        exact fun member => once.2.2 slot member slot
          (List.mem_singleton.mpr rfl) rfl
      have kept : slot ∉ es.filterMap Event.givenAway? :=
        fun member => new (h.subset slot member)
      rw [PathState.step, if_neg fresh]
      constructor
      · exact List.Nodup.append h.nodup (List.nodup_singleton slot)
          (by simpa using fresh)
      · intro other given
        rw [List.filterMap_append, List.mem_append] at given ⊢
        rcases given with before | last
        · exact .inl (h.subset other before)
        · cases last
      · intro other
        simp only [List.filterMap_append, List.filterMap_cons,
          Event.acquired?, Event.givenAway?, List.filterMap_nil,
          List.append_nil, List.mem_append, List.mem_singleton, h.mem_held]
        constructor
        · rintro (⟨inside, outside⟩ | rfl)
          · exact ⟨.inl inside, outside⟩
          · exact ⟨.inr rfl, kept⟩
        · rintro ⟨inside | rfl, outside⟩
          · exact .inl ⟨inside, outside⟩
          · exact .inr rfl
  | released slot mode =>
      have member : slot ∈ state.held := by
        simpa [PathState.offence?] using fine
      refine h.giveAway member rfl rfl ?_
      rw [PathState.step, if_pos member]
  | transferred slot into =>
      have member : slot ∈ state.held := by
        simpa [PathState.offence?] using fine
      refine h.giveAway member rfl rfl ?_
      rw [PathState.step, if_pos member]
  | _ => exact h.quiet rfl rfl rfl

/-- The account of what is held is kept along a run without offences. -/
theorem holdsAfter_after (fine : PathState.start.offences es = [])
    (once : (es.filterMap Event.acquired?).Nodup) :
    (PathState.start.after es).HoldsAfter es := by
  -- From the end: an event is judged by the state that those before it leave.
  induction es using List.reverseRecOn with
  | nil =>
      constructor <;> simp [PathState.start]
  | append_singleton es event ih =>
      rw [PathState.offences_append, List.append_eq_nil_iff] at fine
      obtain ⟨before, last⟩ := fine
      have once' : (es.filterMap Event.acquired?).Nodup := by
        rw [List.filterMap_append] at once
        exact once.of_append_left
      rw [PathState.after_append]
      refine (ih before once').step ?_ once
      simpa [PathState.offences] using last

/-- In a run without offences, a slot is given away once, and after that. -/
theorem givenAway_of_offences_eq_nil
    (fine : PathState.start.offences es = [])
    (once : (es.filterMap Event.acquired?).Nodup)
    {before behind : List Event} {event : Event} {slot : Nat}
    (split : es = before ++ event :: behind)
    (given : event.givenAway? = some slot) :
    slot ∈ before.filterMap Event.acquired? ∧
      slot ∉ before.filterMap Event.givenAway? := by
  subst split
  rw [PathState.offences_append, List.append_eq_nil_iff,
    PathState.offences, List.append_eq_nil_iff] at fine
  obtain ⟨before_fine, own, -⟩ := fine
  rw [List.filterMap_append] at once
  refine ((holdsAfter_after before_fine once.of_append_left).mem_held
    slot).mp ?_
  cases event <;> cases given <;>
    simpa [PathState.offence?] using own

end Accounting

/-! ## What parts of a body do -/

/-- The events acquire, release and hand on just these slots, in order. -/
structure Moves (es : List Event) (acquired : List Nat)
    (released : List (Nat × ReleaseMode)) (transferred : List Nat) :
    Prop where
  acquired : es.filterMap Event.acquired? = acquired
  released : es.filterMap Event.released? = released
  transferred : es.filterMap Event.transferred? = transferred

theorem Moves.nil : Moves [] [] [] [] :=
  ⟨rfl, rfl, rfl⟩

theorem Moves.append {es fs : List Event} {a a' : List Nat}
    {r r' : List (Nat × ReleaseMode)} {t t' : List Nat}
    (first : Moves es a r t) (next : Moves fs a' r' t') :
    Moves (es ++ fs) (a ++ a') (r ++ r') (t ++ t') := by
  constructor
  · rw [List.filterMap_append, first.acquired, next.acquired]
  · rw [List.filterMap_append, first.released, next.released]
  · rw [List.filterMap_append, first.transferred, next.transferred]

end Stub

namespace Lowering

open Stub

section Parts

variable {ε : Type} {takes : ε → List Handler → Handler → Prop}
variable {es : List Event} {e : Ending ε}

theorem moves_of_nil (run : Stmt.RunsAll takes [] es e) :
    e = .through ∧ Moves es [] [] [] := by
  obtain ⟨rfl, rfl⟩ := runsAll_nil_iff.mp run
  exact ⟨rfl, .nil⟩

theorem moves_of_releaseAll {mode : ReleaseMode} {slots : List Nat}
    (run : Stmt.RunsAll takes (releaseAll mode slots) es e) :
    e = .through ∧
      Moves es [] (slots.reverse.map fun slot => (slot, mode)) [] := by
  obtain ⟨rfl, rfl⟩ := (runsAll_map_iff
    (fun slot => .released slot mode) (fun _ _ _ => runs_release_iff) _).mp run
  refine ⟨rfl, ?_, ?_, ?_⟩ <;>
    simp [List.filterMap_map, Function.comp_def, Event.acquired?,
      Event.released?, Event.transferred?]

theorem moves_of_transfers {m : MappedMethod}
    (run : Stmt.RunsAll takes (transfers m) es e) :
    e = .through ∧ Moves es [] [] (slotsWhere m Argument.isObject) := by
  obtain ⟨rfl, rfl⟩ := (runsAll_map_iff
    (fun x : Argument × Nat =>
      .transferred x.2 (some (wrapperName x.1.index)))
    (fun _ _ _ => runs_transfer_iff) _).mp run
  refine ⟨rfl, ?_, ?_, ?_⟩ <;>
    simp [List.filterMap_map, Function.comp_def, Event.acquired?,
      Event.released?, Event.transferred?, slotsWhere]

/-- Releases and a return, with something between that moves nothing. -/
theorem moves_of_releaseAll_ret {m : MappedMethod} {exit : Exit}
    {slots : List Nat} (between : List Stmt)
    (quiet : ∀ fs f, Stmt.RunsAll takes between fs f →
      f = .through ∧ Moves fs [] [] [])
    (run : Stmt.RunsAll takes
      (releaseAll .abort slots ++ (between ++ [returnDefault m exit])) es e) :
    e = .returned exit ∧
      Moves es [] (slots.reverse.map fun slot => (slot, .abort)) [] := by
  obtain ⟨fs, gs, first, rest, rfl⟩ := runsAll_append_of_through
    (fun _ _ run => (moves_of_releaseAll run).1) run
  obtain ⟨hs, ks, middle, last, rfl⟩ := runsAll_append_of_through
    (fun _ _ run => (quiet _ _ run).1) rest
  obtain ⟨rfl, rfl⟩ := runs_ret_iff.mp (runsAll_singleton_iff.mp last)
  refine ⟨rfl, ?_⟩
  have moves := (moves_of_releaseAll first).2.append (quiet _ _ middle).2
  simpa using moves

theorem moves_of_nullChecks {owner : ClassName} {m : MappedMethod}
    (run : Stmt.RunsAll takes (nullChecks owner m) es e) :
    (e = .through ∨ e = .returned .nullArgument) ∧ Moves es [] [] [] := by
  rw [nullChecks] at run
  generalize (arguments m).filter (fun a => !a.nullable) = args at run
  induction args generalizing es with
  | nil =>
      obtain ⟨rfl, rfl⟩ := runsAll_nil_iff.mp run
      exact ⟨.inl rfl, .nil⟩
  | cons a args ih =>
      have check : ∀ {fs : List Event} {f : Ending ε},
          Stmt.Runs takes (nullCheck owner m a) fs f →
          (f = .through ∨ f = .returned .nullArgument) ∧
            Moves fs [] [] [] := by
        intro fs f run
        rcases runs_ifThen_iff.mp run with ⟨rfl, rfl⟩ | ⟨gs, inner, rfl⟩
        · exact ⟨.inl rfl, rfl, rfl, rfl⟩
        · obtain ⟨hs, ks, raised, last, rfl⟩ :=
            runsAll_append_of_through (a := [.raise _ _]) (fun _ _ run =>
              (runs_raise_iff.mp (runsAll_singleton_iff.mp run)).2) inner
          obtain ⟨rfl, -⟩ :=
            runs_raise_iff.mp (runsAll_singleton_iff.mp raised)
          obtain ⟨rfl, rfl⟩ := runs_ret_iff.mp (runsAll_singleton_iff.mp last)
          exact ⟨.inr rfl, rfl, rfl, rfl⟩
      rcases runsAll_cons_iff.mp run with
        ⟨fs, gs, first, rest, rfl⟩ | ⟨first, left⟩
      · obtain ⟨ending, others⟩ := ih rest
        exact ⟨ending, (check first).2.append others⟩
      · exact check first

theorem moves_of_lengthLine {a : Argument}
    (run : Stmt.RunsAll takes (lengthLine a) es e) :
    e = .through ∧ Moves es [] [] [] := by
  unfold lengthLine at run
  split at run
  · obtain ⟨rfl, rfl⟩ := runs_line_iff.mp (runsAll_singleton_iff.mp run)
    exact ⟨rfl, rfl, rfl, rfl⟩
  · exact moves_of_nil run

/-- Arguments are acquired in order, up to one that cannot be. -/
theorem moves_of_acquisitions {m : MappedMethod} {slot : Nat}
    {args : List Argument}
    (run : Stmt.RunsAll takes (acquisitions m slot args) es e) :
    (e = .through ∧ Moves es (List.range' slot args.length) [] []) ∨
      ∃ k, e = .returned .acquireFailed ∧
        Moves es (List.range' slot k)
          ((List.range (slot + k)).reverse.map fun s => (s, .abort)) [] := by
  induction args generalizing slot es with
  | nil =>
      obtain ⟨rfl, rfl⟩ := runsAll_nil_iff.mp run
      exact .inl ⟨rfl, .nil⟩
  | cons a args ih =>
      rw [acquisitions] at run
      obtain ⟨fs, gs, length, behind, rfl⟩ := runsAll_append_of_through
        (fun _ _ run => (moves_of_lengthLine run).1) run
      have quiet := (moves_of_lengthLine length).2
      rcases runsAll_cons_iff.mp behind with
        ⟨hs, ks, first, rest, rfl⟩ | ⟨first, left⟩
      · rcases runs_acquire_iff.mp first with ⟨rfl, -⟩ | ⟨-, ls, failed, -⟩
        · have acquired : Moves [.acquired slot] [slot] [] [] :=
            ⟨rfl, rfl, rfl⟩
          rcases ih rest with ⟨rfl, moves⟩ | ⟨k, rfl, moves⟩
          · exact .inl ⟨rfl, quiet.append (acquired.append moves)⟩
          · have total : slot + 1 + k = slot + (k + 1) := by
              omega
            rw [total] at moves
            exact .inr ⟨k + 1, rfl, quiet.append (acquired.append moves)⟩
        · -- What cares for a failure returns.
          cases (moves_of_releaseAll_ret []
            (fun _ _ => moves_of_nil) failed).1
      · rcases runs_acquire_iff.mp first with ⟨-, rfl⟩ | ⟨-, ls, failed, rfl⟩
        · exact absurd rfl left
        · obtain ⟨rfl, moves⟩ := moves_of_releaseAll_ret []
            (fun _ _ => moves_of_nil) failed
          have nothing : Moves [.failed slot] [] [] [] := ⟨rfl, rfl, rfl⟩
          exact .inr ⟨0, rfl, quiet.append (nothing.append moves)⟩

theorem moves_of_fillResult {resource : Resource}
    (run : Stmt.RunsAll takes (fillResult resource) es e) :
    e = .through ∧ Moves es [] [] [] := by
  unfold fillResult at run
  split at run
  · rcases runs_ifThen_iff.mp (runsAll_singleton_iff.mp run) with
      ⟨rfl, rfl⟩ | ⟨fs, filled, rfl⟩
    · exact ⟨rfl, rfl, rfl, rfl⟩
    · obtain ⟨rfl, rfl⟩ :=
        runs_line_iff.mp (runsAll_singleton_iff.mp filled)
      exact ⟨rfl, rfl, rfl, rfl⟩
  · exact moves_of_nil run

theorem moves_of_acquire_transfer {resource : Resource} {slot : Nat}
    (run : Stmt.RunsAll takes
      (.acquire slot [] :: fillResult resource
        ++ [.transfer slot none, .ret (.expr "out") .normal]) es e) :
    e = .returned .normal ∧ Moves es [slot] [] [slot] := by
  have acquired : ∀ {fs : List Event} {f : Ending ε},
      Stmt.RunsAll takes [.acquire slot []] fs f →
      f = .through ∧ Moves fs [slot] [] [] := by
    intro fs f run
    rcases runs_acquire_iff.mp (runsAll_singleton_iff.mp run) with
      ⟨rfl, rfl⟩ | ⟨care, -⟩
    · exact ⟨rfl, rfl, rfl, rfl⟩
    · exact absurd rfl care
  have transferred : ∀ {fs : List Event} {f : Ending ε},
      Stmt.RunsAll takes [.transfer slot none] fs f →
      f = .through ∧ Moves fs [] [] [slot] := by
    intro fs f run
    obtain ⟨rfl, rfl⟩ := runs_transfer_iff.mp (runsAll_singleton_iff.mp run)
    exact ⟨rfl, rfl, rfl, rfl⟩
  rw [List.cons_append] at run
  obtain ⟨fs, gs, first, behind, rfl⟩ := runsAll_append_of_through
    (a := [.acquire slot []]) (fun _ _ run => (acquired run).1) run
  obtain ⟨hs, ks, filled, rest, rfl⟩ := runsAll_append_of_through
    (fun _ _ run => (moves_of_fillResult run).1) behind
  obtain ⟨ls, ms, handed, last, rfl⟩ := runsAll_append_of_through
    (a := [.transfer slot none]) (fun _ _ run => (transferred run).1) rest
  obtain ⟨rfl, rfl⟩ := runs_ret_iff.mp (runsAll_singleton_iff.mp last)
  exact ⟨rfl, (acquired first).2.append ((moves_of_fillResult filled).2.append
    ((transferred handed).2.append .nil))⟩

/-- What is made for the result is acquired and handed on at once. -/
theorem moves_of_returnResult {m : MappedMethod}
    (run : Stmt.RunsAll takes (returnResult m) es e) :
    e = .returned .normal ∧
      ∃ made, (made = [] ∨ made = [(arguments m).length]) ∧
        Moves es made [] made := by
  have returned : ∀ {value : ReturnValue},
      Stmt.RunsAll takes [.ret value .normal] es e →
      e = .returned .normal ∧ Moves es [] [] [] := by
    intro value run
    obtain ⟨rfl, rfl⟩ := runs_ret_iff.mp (runsAll_singleton_iff.mp run)
    exact ⟨rfl, .nil⟩
  unfold returnResult at run
  split at run
  · obtain ⟨ending, moves⟩ := moves_of_acquire_transfer run
    exact ⟨ending, _, .inr rfl, moves⟩
  · have plain : e = .returned .normal ∧ Moves es [] [] [] := by
      split at run
      · split at run <;> exact returned run
      · exact returned run
    exact ⟨plain.1, [], .inl rfl, plain.2⟩

theorem moves_of_handler {m : MappedMethod} {exceptionClass : String}
    {exceptions : Catch} {message : String}
    (run : Stmt.RunsAll takes
      (handler m exceptionClass exceptions message).body es e) :
    e = .returned .nativeException ∧
      Moves es [] ((heldSlots m).reverse.map fun slot => (slot, .abort))
        [] := by
  refine moves_of_releaseAll_ret [.raise _ _] ?_ run
  intro fs f raised
  obtain ⟨rfl, rfl⟩ := runs_raise_iff.mp (runsAll_singleton_iff.mp raised)
  exact ⟨rfl, rfl, rfl, rfl⟩

/-- What is tried ends in a throw before any release, or returns. -/
theorem moves_of_tried {m : MappedMethod} {text : String}
    (run : Stmt.RunsAll takes
      (transfers m ++ .call text :: releaseAll .commit (heldSlots m)
        ++ returnResult m) es e) :
    (∃ x, e = .thrown x ∧
        Moves es [] [] (slotsWhere m Argument.isObject)) ∨
      e = .returned .normal ∧
        ∃ made, (made = [] ∨ made = [(arguments m).length]) ∧
          Moves es made
            ((heldSlots m).reverse.map fun slot => (slot, .commit))
            (slotsWhere m Argument.isObject ++ made) := by
  rw [List.append_assoc, List.cons_append] at run
  obtain ⟨fs, gs, handed, called, rfl⟩ := runsAll_append_of_through
    (fun _ _ run => (moves_of_transfers run).1) run
  have objects := (moves_of_transfers handed).2
  rcases runsAll_cons_iff.mp called with
    ⟨hs, ks, call, rest, rfl⟩ | ⟨call, left⟩
  · obtain ⟨rfl, -⟩ := runs_call_iff.mp call
    have quiet : Moves [.called text] [] [] [] := ⟨rfl, rfl, rfl⟩
    obtain ⟨ls, ms, released, last, rfl⟩ := runsAll_append_of_through
      (fun _ _ run => (moves_of_releaseAll run).1) rest
    have releases := (moves_of_releaseAll released).2
    obtain ⟨ending, made, kind, moves⟩ := moves_of_returnResult last
    refine .inr ⟨ending, made, kind, ?_⟩
    have total := objects.append (quiet.append (releases.append moves))
    simpa using total
  · obtain ⟨rfl, rfl | ⟨x, rfl⟩⟩ := runs_call_iff.mp call
    · exact absurd rfl left
    · have quiet : Moves [.called text] [] [] [] := ⟨rfl, rfl, rfl⟩
      have total := objects.append quiet
      refine .inl ⟨x, rfl, ?_⟩
      simpa using total

end Parts

/-! ## The whole body -/

section Body

variable {es : List Event} {e : Ending Unit}

/-- The slots that are held during the call are those not handed on. -/
theorem heldSlots_eq_filter (m : MappedMethod) :
    heldSlots m = (List.range (arguments m).length).filter fun slot =>
      slot ∉ slotsWhere m Argument.isObject := by
  rw [heldSlots, ← range_diff_slotsWhere m Argument.isObject,
    List.nodup_range.sdiff_eq_filter]

/-- What is made for the result is held no more once it is handed on. -/
theorem filter_made {m : MappedMethod} {made : List Nat}
    (kind : made = [] ∨ made = [(arguments m).length]) :
    ((List.range (arguments m).length ++ made).filter fun slot =>
      slot ∉ slotsWhere m Argument.isObject ++ made) = heldSlots m := by
  have none_kept : (made.filter fun slot =>
      slot ∉ slotsWhere m Argument.isObject ++ made) = [] := by
    simp +contextual
  rw [List.filter_append, none_kept, List.append_nil, heldSlots_eq_filter]
  refine List.filter_congr fun slot inside => ?_
  have other : slot ∉ made := by
    rcases kind with rfl | rfl
    · exact List.not_mem_nil
    · have below := List.mem_range.mp inside
      simp only [List.mem_singleton]
      omega
  simp [other]

theorem moves_of_guardedCall {m : MappedMethod} {space : List String}
    {implementation exceptionClass : String}
    (run : Stmt.Runs anyHandler
      (guardedCall m space implementation exceptionClass) es e) :
    (e = .returned .normal ∧
        ∃ made, (made = [] ∨ made = [(arguments m).length]) ∧
          Moves es made
            ((heldSlots m).reverse.map fun slot => (slot, .commit))
            (slotsWhere m Argument.isObject ++ made)) ∨
      e = .returned .nativeException ∧
        Moves es [] ((heldSlots m).reverse.map fun slot => (slot, .abort))
          (slotsWhere m Argument.isObject) := by
  rcases runs_tryCatch_iff.mp run with ⟨tried, calm⟩ | ⟨x, fs, tried, ways⟩
  · rcases moves_of_tried tried with ⟨x, rfl, -⟩ | returned
    · exact absurd rfl (calm x)
    · exact .inl returned
  · rcases moves_of_tried tried with ⟨-, -, objects⟩ | ⟨returned, -⟩
    · rcases ways with ⟨h, member, -, gs, handled, rfl⟩ | ⟨free, -⟩
      · have same : ∃ exceptions message,
            h = handler m exceptionClass exceptions message := by
          simp only [List.mem_cons, List.not_mem_nil, or_false] at member
          rcases member with rfl | rfl <;> exact ⟨_, _, rfl⟩
        obtain ⟨exceptions, message, rfl⟩ := same
        obtain ⟨ending, moves⟩ := moves_of_handler handled
        refine .inr ⟨ending, ?_⟩
        simpa using objects.append moves
      · exact absurd trivial (free _ List.mem_cons_self)
    · cases returned

/--
On every run of a lowered body the releases are of what is acquired and not
handed on, the latest first, in the mode of the exit.
-/
theorem moves_of_body {owner : ClassName} {m : MappedMethod}
    {space : List String} {implementation exceptionClass : String}
    (run : Stmt.RunsAll anyHandler
      (body owner m space implementation exceptionClass) es e) :
    ∃ exit acquired transferred, e = .returned exit ∧ acquired.Nodup ∧
      Moves es acquired
        ((acquired.filter fun slot => slot ∉ transferred).reverse.map
          fun slot => (slot, exit.releaseMode))
        transferred := by
  rw [body, List.append_assoc] at run
  -- Control leaves in the null checks, in the acquisitions, or in the call.
  rcases runsAll_append_iff.mp run with
    ⟨fs, gs, checked, behind, rfl⟩ | ⟨checked, left⟩
  · have quiet := (moves_of_nullChecks checked).2
    rcases runsAll_append_iff.mp behind with
      ⟨hs, ks, acquired, called, rfl⟩ | ⟨failed, left⟩
    · rcases moves_of_acquisitions acquired with ⟨-, moves⟩ | ⟨k, ended, -⟩
      · rw [← List.range_eq_range'] at moves
        have before := quiet.append moves
        rcases moves_of_guardedCall (runsAll_singleton_iff.mp called) with
          ⟨rfl, made, kind, moves⟩ | ⟨rfl, moves⟩
        · refine ⟨.normal, List.range (arguments m).length ++ made,
            slotsWhere m Argument.isObject ++ made, rfl, ?_, ?_⟩
          · rcases kind with rfl | rfl
            · simpa using List.nodup_range
            · rw [← List.range_succ]
              exact List.nodup_range
          · rw [filter_made kind]
            simpa [Exit.releaseMode] using before.append moves
        · refine ⟨.nativeException, List.range (arguments m).length,
            slotsWhere m Argument.isObject, rfl, List.nodup_range, ?_⟩
          rw [← heldSlots_eq_filter]
          simpa [Exit.releaseMode] using before.append moves
      · cases ended
    · rcases moves_of_acquisitions failed with ⟨rfl, -⟩ | ⟨k, rfl, moves⟩
      · exact absurd rfl left
      · refine ⟨.acquireFailed, List.range k, [], rfl, List.nodup_range, ?_⟩
        rw [Nat.zero_add, ← List.range_eq_range'] at moves
        simpa [Exit.releaseMode] using quiet.append moves
  · obtain ⟨rfl | rfl, quiet⟩ := moves_of_nullChecks checked
    · exact absurd rfl left
    · exact ⟨.nullArgument, [], [], rfl, .nil, quiet⟩

/-- No run of a lowered stub does anything wrong. -/
theorem offences_eq_nil (t : Target) (m : MappedMethod)
    (signature : Signature) (implementation exceptionClass : String)
    (run : (lower t m signature implementation exceptionClass).stub.Runs es e) :
    PathState.start.offences es = [] := by
  have handled := count_isUnhandled_eq_zero
    (count_isPartial_lower t m signature implementation exceptionClass)
  refine List.eq_nil_iff_forall_not_mem.mpr fun v offence => ?_
  have found := mem_violations_of_run handled run
    (List.mem_append_left _ offence)
  rw [violations_audit_lower] at found
  cases found

/--
Every run of a lowered stub returns. What it releases is what it acquired and
did not hand on, each slot once and the latest first: in commit mode if it
returns by the normal exit, and in abort mode if by any other. A slot is
released or handed on after it is acquired, and after that no more.
-/
theorem released_in_order (t : Target) (m : MappedMethod)
    (signature : Signature) (implementation exceptionClass : String)
    (run : (lower t m signature implementation exceptionClass).stub.Runs es e) :
    ∃ exit, e = .returned exit ∧ ReleasedInOrder es exit := by
  obtain ⟨exit, acquired, transferred, rfl, once, moves⟩ := moves_of_body run
  refine ⟨exit, rfl, ?_⟩
  constructor
  · rw [moves.acquired]
    exact once
  · rw [moves.acquired, moves.released, moves.transferred]
  · intro before event behind slot split given
    refine givenAway_of_offences_eq_nil
      (offences_eq_nil t m signature implementation exceptionClass run)
      ?_ split given
    rw [moves.acquired]
    exact once

/-- The implementation throws, with two of three arguments still held. -/
theorem released_in_order_thrown :
    ∃ es,
      (lower mixedTarget mixedMapped default "mix" "a/E").stub.Runs es
        (.returned .nativeException) ∧
      es.filterMap Event.acquired? = [0, 1, 2] ∧
      es.filterMap Event.released? = [(2, .abort), (0, .abort)] ∧
      ReleasedInOrder es .nativeException := by
  have run : ∃ es,
      (lower mixedTarget mixedMapped default "mix" "a/E").stub.Runs es
        (.returned .nativeException) ∧
      es.filterMap Event.acquired? = [0, 1, 2] ∧
      es.filterMap Event.released? = [(2, .abort), (0, .abort)] := by
    refine ⟨_, .cons (.skip _ _) <| .cons (.skip _ _) <|
      .cons (.acquire 0 _) <| .cons (.acquire 1 _) <| .cons (.line _) <|
      .cons (.acquire 2 _) <| .stop (.caught
        (.cons (.transfer 1 _) (.stop (.throw _ ()) nofun))
        List.mem_cons_self trivial
        (.cons (.release 2 .abort) <| .cons (.release 0 .abort) <|
          .cons (.raise _ _) <| .stop (.ret _ _) nofun)) nofun, rfl, rfl⟩
  obtain ⟨es, run, acquired, released⟩ := run
  obtain ⟨exit, ended, ordered⟩ := released_in_order mixedTarget mixedMapped
    default "mix" "a/E" run
  cases ended
  exact ⟨es, run, acquired, released, ordered⟩

end Body

end Lowering
end NativeGlue
