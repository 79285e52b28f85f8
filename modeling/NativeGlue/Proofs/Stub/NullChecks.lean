import Mathlib.Order.Bounds.Basic
import NativeGlue.Proofs.Mapping.Basic
import NativeGlue.Proofs.Stub.Guards
import NativeGlue.Proofs.Stub.Run

/-!
# Null checks

A stub takes hold of its string and array arguments, and of objects that change
owner. Which of them are checked for null is told by the method alone, so the
null checks of a stub can be read off the method, by positions of parameters.

On a run that finds variables null just if they are, the checks refuse the
first null argument that is checked, and otherwise let control through.
-/

namespace NativeGlue
namespace Lowering

open Stub

/-! ## Arguments by their positions -/

section Positions

/-- Whether a stub takes hold of the arguments of a type. -/
def takesHold (owning : Bool) : TypeDescriptor → Bool
  | .primitive _ => false
  | .object _ => owning
  | .string | .array _ _ => true

/-- The positions of the parameters of some types. -/
def positions (m : Method) (p : TypeDescriptor → Bool) : List Nat :=
  (m.descriptor.params.zipIdx.filter fun (t, _) => p t).map Prod.snd

/-- The positions of the arguments that a stub takes hold of. -/
def ownedPositions (m : Method) : List Nat :=
  positions m (takesHold m.flags.takesOwnership)

/-- The positions of the arguments that may not be null. -/
def checkedPositions (m : Method) : List Nat :=
  (ownedPositions m).filter m.nullChecked

/-- The arguments from a position on that a stub acquires. -/
def argumentsFrom (m : Method) (ps : List MappedType) (start : Nat) :
    List Argument :=
  (ps.zipIdx start).filterMap fun (p, i) =>
    if p.ownership.needsRelease then
      (argumentResource? p.carriage).map fun resource =>
        ⟨i, resource, !m.nullChecked i⟩
    else
      none

theorem arguments_eq (m : MappedMethod) :
    arguments m = argumentsFrom m.method m.params 0 := by
  rw [arguments, MappedMethod.ownedParams, List.filterMap_map,
    List.filterMap_filter]
  rfl

/-- Whether an argument is an array. -/
def Argument.isArray (a : Argument) : Bool :=
  match a.resource with
  | .arrayElements _ => true
  | _ => false

/-- A parameter is acquired if a stub takes hold of its type. -/
theorem resource_of_mapType {owning : Bool} {t : TypeDescriptor}
    {p : MappedType} (mapped : Mapping.mapType .param owning t = .ok p) :
    p.ownership.needsRelease = takesHold owning t ∧
      (takesHold owning t = true →
        ∃ resource, argumentResource? p.carriage = some resource ∧
          ∀ i nullable,
            (Argument.mk i resource nullable).isArray = t.isArray) := by
  rcases Mapping.mapType_cases mapped with
    ⟨kind, rfl, rfl⟩ | ⟨rfl, cppType, rfl⟩ | ⟨name, rfl, rfl⟩ |
      ⟨kind, dimensions, rfl, rfl⟩
  · exact ⟨rfl, nofun⟩
  · exact ⟨rfl, fun _ => ⟨_, rfl, fun _ _ => rfl⟩⟩
  · cases owning with
    | false => exact ⟨rfl, nofun⟩
    | true => exact ⟨rfl, fun _ => ⟨_, rfl, fun _ _ => rfl⟩⟩
  · exact ⟨rfl, fun _ => ⟨_, rfl, fun _ _ => rfl⟩⟩

/-- The arguments of some kind stand at the parameters of such a type. -/
theorem map_index_argumentsFrom {m : Method} {owning : Bool}
    {ts : List TypeDescriptor} {ps : List MappedType}
    (mapped : List.Forall₂
      (fun t p => Mapping.mapType .param owning t = .ok p) ts ps)
    {q : Argument → Bool} {r : TypeDescriptor → Bool}
    (same : ∀ a t, a.isArray = t.isArray → q a = r t) (start : Nat) :
    ((argumentsFrom m ps start).filter q).map Argument.index =
      ((ts.zipIdx start).filter fun (t, _) => takesHold owning t && r t).map
        Prod.snd := by
  induction mapped generalizing start with
  | nil => rfl
  | @cons t p ts ps first rest ih =>
      obtain ⟨owned, acquired⟩ := resource_of_mapType first
      have behind := ih (start + 1)
      rw [argumentsFrom] at behind ⊢
      rw [List.zipIdx_cons, List.zipIdx_cons, List.filterMap_cons,
        List.filter_cons]
      cases hold : takesHold owning t with
      | false => simp [owned, hold, behind]
      | true =>
          obtain ⟨resource, eq, array⟩ := acquired hold
          have chosen := same ⟨start, resource, !m.nullChecked start⟩ t
            (array _ _)
          cases kind : r t <;>
            simp [owned, hold, eq, chosen, kind, behind]

/-- Whether an argument may be null is told by the method. -/
theorem nullable_of_mem_arguments {m : MappedMethod} {a : Argument}
    (member : a ∈ arguments m) :
    a.nullable = !m.method.nullChecked a.index := by
  obtain ⟨x, -, made⟩ := List.mem_filterMap.mp member
  obtain ⟨resource, -, rfl⟩ := Option.map_eq_some_iff.mp made
  rfl

section Accepted

variable {owner : ClassName} {m : Method} {mapped : MappedMethod}

theorem map_index_filter (accepted : Mapping.mapMethod owner m = .ok mapped)
    {q : Argument → Bool} {r : TypeDescriptor → Bool}
    (same : ∀ a t, a.isArray = t.isArray → q a = r t) :
    ((arguments mapped).filter q).map Argument.index =
      positions m fun t => takesHold m.flags.takesOwnership t && r t := by
  obtain ⟨-, params, -⟩ := Mapping.mapMethod_eq_ok accepted
  rw [arguments_eq]
  exact map_index_argumentsFrom (Mapping.mapParams_eq_ok_iff.mp params) same 0

theorem map_index_arguments
    (accepted : Mapping.mapMethod owner m = .ok mapped) :
    (arguments mapped).map Argument.index = ownedPositions m := by
  have all := map_index_filter accepted (q := fun _ => true)
    (r := fun _ => true) fun _ _ _ => rfl
  simpa [ownedPositions] using all

theorem map_index_checked
    (accepted : Mapping.mapMethod owner m = .ok mapped) :
    ((arguments mapped).filter fun a => !a.nullable).map Argument.index =
      checkedPositions m := by
  obtain ⟨method, -, -⟩ := Mapping.mapMethod_eq_ok accepted
  have checked : ((arguments mapped).filter fun a => !a.nullable) =
      (arguments mapped).filter (m.nullChecked ∘ Argument.index) := by
    refine List.filter_congr fun a member => ?_
    rw [nullable_of_mem_arguments member, method, Bool.not_not]
    rfl
  rw [checked, checkedPositions, ← map_index_arguments accepted,
    List.filter_map]

theorem map_index_arrays
    (accepted : Mapping.mapMethod owner m = .ok mapped) :
    ((arguments mapped).filter Argument.isArray).map Argument.index =
      positions m TypeDescriptor.isArray := by
  have held : (fun t => takesHold m.flags.takesOwnership t && t.isArray) =
      TypeDescriptor.isArray := by
    funext t
    cases t <;> simp [TypeDescriptor.isArray, takesHold]
  rw [map_index_filter accepted fun _ _ same => same, held]

/-- Positions are in ascending order. -/
theorem pairwise_positions (m : Method) (p : TypeDescriptor → Bool) :
    (positions m p).Pairwise (· < ·) := by
  have sub : (positions m p).Sublist
      (m.descriptor.params.zipIdx.map Prod.snd) :=
    List.filter_sublist.map _
  rw [List.zipIdx_map_snd] at sub
  exact List.Pairwise.sublist sub List.pairwise_lt_range'

end Accepted

end Positions

/-! ## The null checks -/

section Refusal

/-- What is tested of an argument that may not be null. -/
def nullCondition (i : Nat) : String := argName i ++ " == nullptr"

/-- What is said if an argument is null. -/
def nullMessage (owner : ClassName) (m : Method) (i : Nat) : String :=
  Code.stringLiteral ("argument " ++ toString i ++ " of " ++ owner.binary
    ++ "." ++ m.name ++ " is null")

/-- The check of one argument, in a stub that returns a value or none. -/
def refusal (owner : ClassName) (m : Method) (void : Bool) (i : Nat) : Stmt :=
  .ifThen (nullCondition i)
    [.raise "java/lang/NullPointerException" (nullMessage owner m i),
      .ret (if void then .void else .default) .nullArgument]

theorem nullChecks_eq {t : Target} {m : Method} {mapped : MappedMethod}
    (accepted : Mapping.mapMethod t.name m = .ok mapped)
    (signature : Signature) (implementation exceptionClass : String) :
    nullChecks t.name mapped =
      (checkedPositions m).map (refusal t.name m
        (lower t mapped signature implementation
          exceptionClass).stub.returnsVoid) := by
  obtain ⟨method, -, -⟩ := Mapping.mapMethod_eq_ok accepted
  rw [nullChecks, ← map_index_checked accepted, List.map_map]
  refine List.map_congr_left fun a _ => ?_
  simp [nullCheck, refusal, nullCondition, nullMessage, method,
    returnDefault, returnsVoid, lower, nullPointerException]

/-- No test goes against which variables are null. -/
def Respects (isNull : String → Bool) (es : List Event) : Prop :=
  ∀ condition found, .tested condition found ∈ es →
    ∀ truth, holds? isNull (words condition.toList) = some truth →
      found = truth

variable {isNull : String → Bool} {es : List Event}

/-- Conditions can be found to hold as they do. -/
theorem respects_of_tests
    (tests : Tests (fun condition =>
      (holds? isNull (words condition.toList)).getD false) es) :
    Respects isNull es := by
  intro condition found member truth known
  simpa [known] using tests condition found member

theorem isVariable_argName (i : Nat) : IsVariable (argName i) :=
  IsVariable.append_toString (by decide) i

theorem holds?_nullCondition (i : Nat) :
    holds? isNull (words (nullCondition i).toList) =
      some (isNull (argName i)) := by
  rw [nullCondition, words_comparison (isVariable_argName i)]
  rfl

variable {ε : Type} {takes : ε → List Handler → Handler → Prop}
variable {e : Ending ε} {owner : ClassName} {m : Method} {void : Bool}
variable {i : Nat} {is : List Nat} {rest : List Stmt}

/-- The test of an argument, and what it finds. -/
def nullTest (i : Nat) (found : Bool) : Event :=
  .tested (nullCondition i) found

/-- What happens when an argument is refused. -/
def refused (owner : ClassName) (m : Method) (i : Nat) : List Event :=
  [nullTest i true,
    .raised "java/lang/NullPointerException" (nullMessage owner m i)]

/-- A test of an argument finds whether the argument is null. -/
theorem respects_nullTest_cons {found : Bool} :
    Respects isNull (nullTest i found :: es) ↔
      found = isNull (argName i) ∧ Respects isNull es := by
  constructor
  · exact fun h => ⟨h _ _ List.mem_cons_self _ (holds?_nullCondition i),
      fun c b behind => h c b (List.mem_cons_of_mem _ behind)⟩
  · rintro ⟨rfl, rest⟩ c b member truth known
    rcases List.mem_cons.mp member with same | behind
    · obtain ⟨rfl, rfl⟩ := Event.tested.inj same
      rw [holds?_nullCondition] at known
      exact Option.some.inj known
    · exact rest c b behind truth known

theorem runsAll_refusal_body :
    Stmt.RunsAll takes
        [.raise "java/lang/NullPointerException" (nullMessage owner m i),
          .ret (if void then .void else .default) .nullArgument] es e ↔
      es = [.raised "java/lang/NullPointerException" (nullMessage owner m i)] ∧
        e = .returned .nullArgument := by
  constructor
  · intro run
    rcases runsAll_cons_iff.mp run with
      ⟨fs, gs, raised, last, rfl⟩ | ⟨raised, left⟩
    · obtain ⟨rfl, -⟩ := runs_raise_iff.mp raised
      obtain ⟨rfl, rfl⟩ := runs_ret_iff.mp (runsAll_singleton_iff.mp last)
      exact ⟨rfl, rfl⟩
    · exact absurd (runs_raise_iff.mp raised).2 left
  · rintro ⟨rfl, rfl⟩
    exact .cons (.raise ..) (.stop (.ret ..) (by simp))

/-- Null is refused at once; anything else goes on to what follows. -/
theorem runsAll_refusal_cons_iff :
    (Stmt.RunsAll takes (refusal owner m void i :: rest) es e ∧
        Respects isNull es) ↔
      if isNull (argName i) then
        es = refused owner m i ∧ e = .returned .nullArgument
      else
        ∃ fs, Stmt.RunsAll takes rest fs e ∧ Respects isNull fs ∧
          es = nullTest i false :: fs := by
  rw [runsAll_cons_iff]
  constructor
  · rintro ⟨⟨fs, gs, first, next, rfl⟩ | ⟨first, left⟩, respects⟩
    · rcases runs_ifThen_iff.mp first with ⟨rfl, -⟩ | ⟨hs, inner, -⟩
      · obtain ⟨held, behind⟩ := respects_nullTest_cons.mp respects
        rw [← held, if_neg Bool.false_ne_true]
        exact ⟨gs, next, behind, rfl⟩
      · cases (runsAll_refusal_body.mp inner).2
    · rcases runs_ifThen_iff.mp first with ⟨-, rfl⟩ | ⟨hs, inner, rfl⟩
      · exact absurd rfl left
      · obtain ⟨rfl, rfl⟩ := runsAll_refusal_body.mp inner
        obtain ⟨null, -⟩ := respects_nullTest_cons.mp respects
        rw [if_pos null.symm]
        exact ⟨rfl, rfl⟩
  · intro h
    split at h
    · rename_i null
      obtain ⟨rfl, rfl⟩ := h
      have respects : Respects isNull (refused owner m i) :=
        respects_nullTest_cons.mpr ⟨null.symm, by simp [Respects]⟩
      exact ⟨.inr ⟨.enter (runsAll_refusal_body.mpr ⟨rfl, rfl⟩), by simp⟩,
        respects⟩
    · rename_i held
      obtain ⟨fs, run, behind, rfl⟩ := h
      have respects : Respects isNull (nullTest i false :: fs) :=
        respects_nullTest_cons.mpr ⟨by simpa using held, behind⟩
      exact ⟨.inl ⟨_, fs, .skip .., run, rfl⟩, respects⟩

/-- The first null argument that is checked is refused, and that is all. -/
theorem runsAll_refusals_iff (ascending : is.Pairwise (· < ·))
    (least : IsLeast {j | j ∈ is ∧ isNull (argName j) = true} i) :
    (Stmt.RunsAll takes (is.map (refusal owner m void) ++ rest) es e ∧
        Respects isNull es) ↔
      es = (is.filter (· < i)).map (nullTest · false) ++ refused owner m i ∧
        e = .returned .nullArgument := by
  induction is generalizing es with
  | nil => cases least.1.1
  | cons j is ih =>
      obtain ⟨above, ascending⟩ := List.pairwise_cons.mp ascending
      obtain ⟨⟨among, null⟩, lower⟩ := least
      rw [List.map_cons, List.cons_append, runsAll_refusal_cons_iff]
      rcases List.mem_cons.mp among with rfl | behind
      · have none : (i :: is).filter (· < i) = [] := by
          rw [List.filter_eq_nil_iff]
          intro k member
          rcases List.mem_cons.mp member with rfl | member
          · simp
          · simpa using (above k member).le
        rw [if_pos null, none]
        rfl
      · have below := above i behind
        have held : isNull (argName j) = false := by
          by_contra refused
          have bound := lower ⟨List.mem_cons_self, by simpa using refused⟩
          omega
        have least : IsLeast {j | j ∈ is ∧ isNull (argName j) = true} i :=
          ⟨⟨behind, null⟩, fun k member =>
            lower ⟨List.mem_cons_of_mem _ member.1, member.2⟩⟩
        rw [held, if_neg Bool.false_ne_true, List.filter_cons,
          if_pos (by simpa using below), List.map_cons, List.cons_append]
        constructor
        · rintro ⟨fs, run, respects, rfl⟩
          obtain ⟨rfl, rfl⟩ := (ih ascending least).mp ⟨run, respects⟩
          exact ⟨rfl, rfl⟩
        · rintro ⟨rfl, rfl⟩
          obtain ⟨run, respects⟩ := (ih ascending least).mpr ⟨rfl, rfl⟩
          exact ⟨_, run, respects, rfl⟩

/-- If no argument that is checked is null, what follows the checks runs. -/
theorem runsAll_refusals_append_iff
    (held : ∀ j ∈ is, isNull (argName j) = false) :
    (Stmt.RunsAll takes (is.map (refusal owner m void) ++ rest) es e ∧
        Respects isNull es) ↔
      ∃ fs, Stmt.RunsAll takes rest fs e ∧ Respects isNull fs ∧
        es = is.map (nullTest · false) ++ fs := by
  induction is generalizing es with
  | nil => simp
  | cons j is ih =>
      rw [List.forall_mem_cons] at held
      rw [List.map_cons, List.cons_append, runsAll_refusal_cons_iff, held.1,
        if_neg Bool.false_ne_true]
      constructor
      · rintro ⟨fs, run, respects, rfl⟩
        obtain ⟨gs, next, behind, rfl⟩ := (ih held.2).mp ⟨run, respects⟩
        exact ⟨gs, next, behind, rfl⟩
      · rintro ⟨fs, run, respects, rfl⟩
        obtain ⟨run, respects⟩ := (ih held.2).mpr ⟨fs, run, respects, rfl⟩
        exact ⟨_, run, respects, rfl⟩

end Refusal

end Lowering
end NativeGlue
