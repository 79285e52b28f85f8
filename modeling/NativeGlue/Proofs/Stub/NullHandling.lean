import Mathlib.Order.Nat
import NativeGlue.Proofs.Plan.Balance
import NativeGlue.Proofs.Stub.NullChecks
import NativeGlue.Proofs.Stub.Statements

/-!
# Null arguments

What a stub takes hold of is either refused when it is null, before anything
else is done, or guarded wherever it is used. So no call that acquires an
argument, or takes its length, is ever made on a null argument.

What follows the null checks is treated statement by statement: the events of
a run come from statements that the run goes through, and none of those touches
a null argument once the checks have let control through.

Main statement: `nullSafe_lower`.
-/

namespace NativeGlue
namespace Lowering

open Stub

/-! ## What follows the null checks -/

section Slots

variable {m : MappedMethod} {isNull : String → Bool}

theorem isVariable_var (a : Argument) : IsVariable a.var := by
  have letter : IsVariable (Argument.letter a.resource) := by
    have three : Argument.letter a.resource = "s" ∨
        Argument.letter a.resource = "e" ∨
        Argument.letter a.resource = "g" := by
      cases a.resource <;> simp [Argument.letter]
    rcases three with eq | eq | eq <;> rw [eq] <;> decide
  exact letter.append_toString a.index

/-- What is acquired for an argument is taken from it. -/
theorem isArgument_of_mem_arguments {a : Argument}
    (member : a ∈ arguments m) : a.slot.isArgument = true := by
  obtain ⟨⟨i, p⟩, -, made⟩ := List.mem_filterMap.mp member
  obtain ⟨resource, acquired, rfl⟩ := Option.map_eq_some_iff.mp made
  cases eq : p.carriage <;> simp only [eq, argumentResource?] at acquired <;>
    cases acquired <;> rfl

theorem isPlain_slot {a : Argument} (member : a ∈ arguments m) :
    a.slot.IsPlain :=
  ⟨isVariable_var a, isVariable_argName a.index,
    fun _ => isArgument_of_mem_arguments member⟩

/-- The slot of what is made for a result. -/
def resultSlot (kind : Resource) : Slot :=
  ⟨"out", "result", kind, false⟩

/-- A slot is for an argument, or for what is made for the result. -/
theorem mem_slots {s : Slot} (member : s ∈ slots m) :
    (∃ a ∈ arguments m, s = a.slot) ∨
      ∃ kind, s = resultSlot kind ∧ (resultSlot kind).isArgument = false := by
  rcases List.mem_append.mp member with argument | result
  · obtain ⟨a, inside, rfl⟩ := List.mem_map.mp argument
    exact .inl ⟨a, inside, rfl⟩
  · obtain ⟨kind, made, rfl⟩ := List.mem_map.mp result
    rw [Option.mem_toList] at made
    refine .inr ⟨kind, rfl, ?_⟩
    cases eq : m.ret.carriage <;> simp only [eq, resultResource?] at made <;>
      cases made <;> rfl

theorem isPlain_resultSlot (kind : Resource) : (resultSlot kind).IsPlain where
  var := show IsVariable "out" by decide
  source := show IsVariable "result" by decide
  isArgument := nofun

theorem isPlain_of_mem_slots {s : Slot} (member : s ∈ slots m) :
    s.IsPlain := by
  rcases mem_slots member with ⟨a, inside, rfl⟩ | ⟨kind, rfl, -⟩
  · exact isPlain_slot inside
  · exact isPlain_resultSlot kind

/-- The names that calls for a result are made on. -/
theorem firstArguments_resultSlot {kind : Resource}
    (made : (resultSlot kind).isArgument = false) :
    firstArguments (words (resultSlot kind).acquisition.2.toList) ⊆
      ["result", "static_cast", "out", ""] := by
  cases kind with
  | stringChars | arrayElements _ | globalRef => cases made
  | localString => decide
  | localArray kind =>
      have function : IsFunction ("env->New" ++ kind.functionName ++ "Array") :=
        .functionName (by decide) (by decide) kind
      have text : (resultSlot (.localArray kind)).acquisition.2 =
          "env->New" ++ kind.functionName ++ "Array" ++ "("
            ++ "static_cast<jsize>(result.size()))" :=
        String.toList_injective
          (by simp [Slot.acquisition, resultSlot, String.toList_append])
      rw [text, words_call function (by decide) (by decide),
        firstArguments_call function]
      decide

/-- The name of an argument, as opposed to other names that calls are on. -/
theorem argName_not_mem (i : Nat) :
    argName i ∉ ["result", "static_cast", "out", ""] := by
  intro member
  have start : (argName i).toList.head? = some 'a' := by
    simp [argName, String.toList_append]
  simp only [List.mem_cons, List.not_mem_nil, or_false] at member
  rcases member with eq | eq | eq | eq <;> rw [eq] at start <;>
    revert start <;> decide

/-- What is skipped for a null argument touches no null argument. -/
theorem argName_not_mem_guarded {a : Argument} {skipped taken : List String}
    (none : firstArguments skipped = [])
    (first : firstArguments taken = [argName a.index])
    (held : a.nullable = false → isNull (argName a.index) = false)
    {i : Nat} (null : isNull (argName i) = true) :
    argName i ∉ firstArguments
      (if a.nullable && isNull (argName a.index) then skipped else taken) := by
  split
  · rw [none]
    exact List.not_mem_nil
  · rename_i reached
    rw [first, List.mem_singleton]
    intro same
    rw [same] at null
    cases nullable : a.nullable with
    | true => exact reached (by rw [nullable, null]; rfl)
    | false =>
        rw [held nullable] at null
        cases null

/-- The acquisition of a slot touches no null argument. -/
theorem argName_not_mem_acquireLine {s : Slot} (member : s ∈ slots m)
    (held : ∀ a ∈ arguments m, a.nullable = false →
      isNull (argName a.index) = false)
    {i : Nat} (null : isNull (argName i) = true) :
    argName i ∉ firstArguments (performed isNull s.acquireLine) := by
  rw [Slot.performed_acquireLine (isPlain_of_mem_slots member)]
  rcases mem_slots member with ⟨a, inside, rfl⟩ | ⟨kind, rfl, made⟩
  · have first : firstArguments (words a.slot.acquisition.2.toList) =
        [argName a.index] :=
      Slot.firstArguments_acquisition (isPlain_slot inside)
        (isArgument_of_mem_arguments inside)
    have none : firstArguments ["nullptr"] = [] := by
      decide
    exact argName_not_mem_guarded none first (held a inside) null
  · exact fun among => argName_not_mem i (firstArguments_resultSlot made among)

end Slots

section Lengths

variable {m : MappedMethod} {isNull : String → Bool}

section LengthCall

theorem isFunction_lengthCall : IsFunction "env->GetArrayLength" := by
  decide

/-- The call that takes the length of an array has one argument. -/
theorem lengthCall_eq (i : Nat) :
    "env->GetArrayLength(" ++ argName i ++ ")" =
      "env->GetArrayLength" ++ "(" ++ (argName i ++ ")") :=
  String.toList_injective (by simp [String.toList_append])

theorem words_lengthCall (i : Nat) :
    words ("env->GetArrayLength(" ++ argName i ++ ")").toList =
      ["env->GetArrayLength(" ++ argName i ++ ")"] := by
  rw [lengthCall_eq]
  exact words_call_name isFunction_lengthCall (isVariable_argName i) (.inr rfl)

theorem firstArguments_lengthCall (i : Nat) :
    firstArguments ["env->GetArrayLength(" ++ argName i ++ ")"] =
      [argName i] := by
  rw [lengthCall_eq]
  exact firstArguments_call_name isFunction_lengthCall (isVariable_argName i)
    (.inr rfl)

end LengthCall

/-- The text that takes the length of an array argument. -/
def lengthText (a : Argument) : String :=
  "const jsize n" ++ toString a.index ++ " = "
    ++ (if a.nullable then
          argName a.index ++ " != nullptr ? "
            ++ ("env->GetArrayLength(" ++ argName a.index ++ ")") ++ " : 0"
        else
          "env->GetArrayLength(" ++ argName a.index ++ ")")
    ++ ";"

theorem lengthLine_eq (a : Argument) :
    lengthLine a = if a.isArray then [.line (lengthText a)] else [] := by
  unfold lengthLine Argument.isArray
  cases a.resource <;> rfl

/-- The length of an array is not taken if the array may be and is null. -/
theorem performed_lengthText (a : Argument) :
    performed isNull (lengthText a) =
      if a.nullable && isNull (argName a.index) then ["0"]
      else ["env->GetArrayLength(" ++ argName a.index ++ ")"] := by
  let target := "const jsize n" ++ toString a.index
  let call := "env->GetArrayLength(" ++ argName a.index ++ ")"
  have plain := isVariable_argName a.index
  have digits := isPlainName_toString a.index
  have fresh : '=' ∉ target.toList := by
    have := digits.not_mem (c := '=') rfl
    simp only [target, String.toList_append, List.mem_append, not_or]
    exact ⟨by decide, this⟩
  have start : target.toList.head? ≠ some 'i' := by
    simp [target, String.toList_append]
  have other {c : Char} (mark : Code.isIdentifierChar c = false)
      (outside : c ∉ "env->GetArrayLength(".toList ∧ c ∉ ")".toList) :
      c ∉ call.toList := by
    simp only [call, String.toList_append, List.mem_append, not_or]
    exact ⟨⟨outside.1, plain.not_mem mark⟩, outside.2⟩
  have word : words call.toList = [call] := words_lengthCall a.index
  cases nullable : a.nullable with
  | true =>
      have text : lengthText a =
          target ++ " = " ++ (argName a.index ++ " != nullptr ? " ++ call
            ++ " : " ++ "0") ++ ";" := by
        unfold lengthText
        simp [nullable, target, call, String.append_assoc]
      rw [text, performed_guarded fresh start plain (other rfl (by decide)),
        word, Bool.true_and]
      rfl
  | false =>
      have text : lengthText a = target ++ " = " ++ call ++ ";" := by
        unfold lengthText
        rw [nullable]
        rfl
      have choice : "?" ∉ words call.toList :=
        not_mem_words (c := '?') (by decide) (other rfl (by decide))
      rw [text, performed_assignment fresh start, evaluated_of_not_mem choice,
        word]
      rfl

/-- The length is taken of no null argument. -/
theorem argName_not_mem_lengthText {a : Argument}
    (held : a.nullable = false → isNull (argName a.index) = false)
    {i : Nat} (null : isNull (argName i) = true) :
    argName i ∉ firstArguments (performed isNull (lengthText a)) := by
  rw [performed_lengthText]
  exact argName_not_mem_guarded rfl (firstArguments_lengthCall a.index) held
    null

end Lengths

/-- A return because of a null argument. -/
def refusesNull : Stmt → Bool
  | .ret _ .nullArgument => true
  | _ => false

/-- Null is refused by the null checks alone. -/
theorem spared_refusesNull (m : MappedMethod) : Spared m refusesNull where
  length a _ := by
    rw [lengthLine_eq]
    split <;> rfl
  fill resource := by cases resource <;> rfl
  acquire _ _ := rfl
  release _ _ := rfl
  transfer _ _ := rfl
  call _ := rfl
  raise _ _ := rfl
  guarded _ _ _ := rfl
  ret _ exit other := by cases exit <;> first | rfl | exact absurd rfl other

/-! ## Null arguments are not touched -/

section Touching

variable {m : MappedMethod} {isNull : String → Bool} {i : Nat}

/-- The line with which an event may take something from an argument. -/
def takingLine? (slots : List Slot) : Event → Option String
  | .line text => some text
  | .acquired slot | .failed slot => slots[slot]?.map Slot.acquireLine
  | _ => none

/-- Whether an event makes a call on an argument. -/
def touches (slots : List Slot) (isNull : String → Bool) (i : Nat)
    (event : Event) : Bool :=
  (takingLine? slots event).any fun line =>
    (firstArguments (performed isNull line)).contains (argName i)

/-- The line that fills an array made for the result. -/
def fillText (kind : Primitive) : String :=
  "env->Set" ++ kind.functionName
    ++ "ArrayRegion(out, 0, static_cast<jsize>(result.size()), "
    ++ "result.data());"

/-- What fills an array made for the result makes no call on an argument. -/
theorem argName_not_mem_fillText (kind : Primitive) :
    argName i ∉ firstArguments (performed isNull (fillText kind)) := by
  have function : IsFunction ("env->Set" ++ kind.functionName
      ++ "ArrayRegion") :=
    .functionName (by decide) (by decide) kind
  have out : IsVariable "out" := by
    decide
  have text : fillText kind =
      "env->Set" ++ kind.functionName ++ "ArrayRegion" ++ "("
        ++ ("out" ++ ", "
          ++ "0, static_cast<jsize>(result.size()), result.data());") :=
    String.toList_injective (by simp [fillText, String.toList_append])
  have plain := isPlainName_functionName kind
  have choice : '?' ∉ (fillText kind).toList := by
    simp [fillText, String.toList_append, plain.not_mem (c := '?') rfl]
  have equals : '=' ∉ (fillText kind).toList := by
    simp [fillText, String.toList_append, plain.not_mem (c := '=') rfl]
  have start : (fillText kind).toList.head? ≠ some 'i' := by
    simp [fillText, String.toList_append]
  have others : firstArguments (words
        "0, static_cast<jsize>(result.size()), result.data());".toList) ⊆
      ["result", "static_cast", "out", ""] := by
    decide
  rw [performed_plain start choice equals, text,
    firstArguments_call_append function out]
  rintro among
  exact argName_not_mem i (List.cons_subset.mpr ⟨by decide, others⟩ among)

theorem countAll_touches_fillResult (slots : List Slot) (resource : Resource) :
    Stmt.countAll (fun s => s.events.any (touches slots isNull i))
      (fillResult resource) = 0 := by
  cases resource with
  | localArray kind =>
      have clear : argName i ∉ firstArguments (performed isNull _) :=
        argName_not_mem_fillText kind
      rw [fillText] at clear
      simpa [fillResult, Stmt.countAll, Stmt.count, Stmt.events, touches,
        takingLine?] using clear
  | _ => rfl

/-- What follows the null checks touches no null argument. -/
theorem spared_touches
    (held : ∀ a ∈ arguments m, a.nullable = false →
      isNull (argName a.index) = false)
    (null : isNull (argName i) = true) :
    Spared m fun s => s.events.any (touches (slots m) isNull i) where
  length a member := by
    have clear := argName_not_mem_lengthText (held a member) null
    rw [lengthLine_eq]
    split
    · simpa [Stmt.countAll, Stmt.count, Stmt.events, touches, takingLine?]
        using clear
    · rfl
  fill := countAll_touches_fillResult (slots m)
  acquire slot _ := by
    have clear : ∀ s, (slots m)[slot]? = some s →
        argName i ∉ firstArguments (performed isNull s.acquireLine) :=
      fun s found => argName_not_mem_acquireLine
        (List.mem_of_getElem? found) held null
    cases found : (slots m)[slot]? with
    | none => simp [Stmt.events, touches, takingLine?, found]
    | some s =>
        simpa [Stmt.events, touches, takingLine?, found] using clear s found
  release _ _ := rfl
  transfer _ _ := rfl
  call _ := rfl
  raise _ _ := rfl
  guarded _ _ _ := rfl
  ret _ _ _ := rfl

end Touching

/-! ## Stubs as a whole -/

/-- The text of a statement that is a line. -/
def lineText? : Stmt → Option String
  | .line text => some text
  | _ => none

/--
A stub that treats null as its method asks: the arguments that are checked are
refused before anything else is done; the others may be null, and are guarded
wherever the stub acquires them, takes their length or releases them. So no run
acquires a null argument, or takes its length.
-/
structure NullSafe (owner : ClassName) (m : Method) (s : Stub) : Prop where
  /-- The checks come first, in the order of the parameters, and only there. -/
  checks : ∃ rest,
    s.body = (checkedPositions m).map (refusal owner m s.returnsVoid) ++ rest
      ∧ Stmt.countAll refusesNull rest = 0
  /-- Each argument that is taken hold of has a slot, nullable if unchecked. -/
  slots : (s.slots.filter Slot.isArgument).map
      (fun slot => (slot.source, slot.nullable)) =
    (ownedPositions m).map fun i => (argName i, !m.nullChecked i)
  /-- A slot for what is made for the result is not nullable. -/
  made : ∀ slot ∈ s.slots, slot.isArgument = false → slot.nullable = false
  /-- The length of each array is taken, unless it is null and unchecked. -/
  lengths : ∀ isNull : String → Bool,
    (s.body.filterMap lineText?).map (performed isNull) =
      (positions m TypeDescriptor.isArray).map fun i =>
        if !m.nullChecked i && isNull (argName i) then ["0"]
        else ["env->GetArrayLength(" ++ argName i ++ ")"]
  /-- An acquisition as it is written, with the test for its failure. -/
  acquisition : ∀ number slot, s.slot? number = some slot → ∀ onFailure,
    ∃ line test,
      Stmt.items s (.acquire number onFailure) =
        .line line ::
          (if onFailure.isEmpty then []
          else .openBlock ("if (" ++ test ++ ")")
            :: (Stmt.itemsAll s onFailure ++ [.closeBlock ""])) ∧
      ∀ isNull : String → Bool,
        performed isNull line =
            (if slot.nullable && isNull slot.source then ["nullptr"]
            else words slot.acquisition.2.toList) ∧
          holds? isNull (words test.toList) =
            some (!(slot.nullable && isNull slot.source) && isNull slot.var)
  /-- A release as it is written. -/
  release : ∀ number slot, s.slot? number = some slot → ∀ mode,
    ∃ line, Stmt.items s (.release number mode) = [.line line] ∧
      ∀ isNull : String → Bool,
        performed isNull line =
          if slot.nullable && isNull slot.var then []
          else words (slot.releaseCall mode).toList
  /-- The first null argument that is checked is refused, and that is all. -/
  refuses : ∀ (isNull : String → Bool) (i : Nat),
    IsLeast {j | j ∈ checkedPositions m ∧ isNull (argName j) = true} i →
    ∀ {ε : Type} (takes : ε → List Handler → Handler → Prop) es e,
      (Stmt.RunsAll takes s.body es e ∧ Respects isNull es) ↔
        es = ((checkedPositions m).filter (· < i)).map (nullTest · false)
            ++ refused owner m i ∧
          e = .returned .nullArgument
  /-- Otherwise nothing is refused, and the stub runs. -/
  accepts : ∀ isNull : String → Bool,
    (∀ j ∈ checkedPositions m, isNull (argName j) = false) →
    ∀ {ε : Type} (takes : ε → List Handler → Handler → Prop),
      (∃ es e, Stmt.RunsAll takes s.body es e ∧ Respects isNull es) ∧
        ∀ es e, Stmt.RunsAll takes s.body es e → Respects isNull es →
          e ≠ .returned .nullArgument
  /-- No acquisition and no length is taken of a null argument. -/
  untouched : ∀ (isNull : String → Bool)
    {ε : Type} (takes : ε → List Handler → Handler → Prop) es e,
      Stmt.RunsAll takes s.body es e → Respects isNull es →
        ∀ event ∈ es, ∀ i, isNull (argName i) = true →
          touches s.slots isNull i event = false

section Lowered

variable {t : Target} {m : Method} {mapped : MappedMethod}

theorem filter_slots (m : MappedMethod) :
    (slots m).filter Slot.isArgument = (arguments m).map Argument.slot := by
  have arguments_kept : ((arguments m).map Argument.slot).filter
      Slot.isArgument = (arguments m).map Argument.slot := by
    rw [List.filter_eq_self]
    intro s member
    obtain ⟨a, inside, rfl⟩ := List.mem_map.mp member
    exact isArgument_of_mem_arguments inside
  have made_dropped : ((resultResource? m.ret.carriage).toList.map
      resultSlot).filter Slot.isArgument = [] := by
    cases m.ret.carriage <;> rfl
  change ((arguments m).map Argument.slot ++ _).filter _ = _
  rw [List.filter_append, arguments_kept]
  exact (congrArg _ made_dropped).trans (List.append_nil _)

theorem filterMap_acquisitions (m : MappedMethod) (slot : Nat)
    (args : List Argument) :
    (acquisitions m slot args).filterMap lineText? =
      (args.filter Argument.isArray).map lengthText := by
  induction args generalizing slot with
  | nil => rfl
  | cons a args ih =>
      rw [acquisitions, lengthLine_eq, List.filterMap_append,
        List.filterMap_cons, ih, List.filter_cons]
      cases a.isArray <;> rfl

theorem body_lower (accepted : Mapping.mapMethod t.name m = .ok mapped)
    (signature : Signature) (implementation exceptionClass : String) :
    let s := (lower t mapped signature implementation exceptionClass).stub
    s.body = (checkedPositions m).map (refusal t.name m s.returnsVoid)
      ++ afterChecks mapped (spaceOf t mapped.method) implementation
        exceptionClass := by
  have checks := nullChecks_eq accepted signature implementation exceptionClass
  intro s
  rw [← checks]
  exact body_eq ..

theorem map_lines_lower (accepted : Mapping.mapMethod t.name m = .ok mapped)
    (signature : Signature) (implementation exceptionClass : String)
    (isNull : String → Bool) :
    ((lower t mapped signature implementation
        exceptionClass).stub.body.filterMap lineText?).map
          (performed isNull) =
      (positions m TypeDescriptor.isArray).map fun i =>
        if !m.nullChecked i && isNull (argName i) then ["0"]
        else ["env->GetArrayLength(" ++ argName i ++ ")"] := by
  obtain ⟨method, -, -⟩ := Mapping.mapMethod_eq_ok accepted
  have checks : ∀ void is, (List.map (refusal t.name m void) is).filterMap
      lineText? = [] := by
    intro void is
    simp [List.filterMap_map, Function.comp_def, refusal, lineText?]
  rw [body_lower accepted, List.filterMap_append, checks, List.nil_append,
    afterChecks, List.filterMap_append, filterMap_acquisitions]
  rw [← map_index_arrays accepted, List.map_map]
  change (List.map lengthText _ ++ []).map _ = _
  rw [List.append_nil, List.map_map]
  refine List.map_congr_left fun a member => ?_
  have inside := List.mem_of_mem_filter member
  rw [Function.comp_apply, performed_lengthText,
    nullable_of_mem_arguments inside, method]
  rfl

theorem held_arguments (accepted : Mapping.mapMethod t.name m = .ok mapped)
    {isNull : String → Bool}
    (held : ∀ j ∈ checkedPositions m, isNull (argName j) = false) :
    ∀ a ∈ arguments mapped, a.nullable = false →
      isNull (argName a.index) = false := by
  intro a member checked
  refine held a.index ?_
  rw [← map_index_checked accepted]
  exact List.mem_map_of_mem (List.mem_filter.mpr ⟨member, by simp [checked]⟩)

section Runs

variable {signature : Signature} {implementation exceptionClass : String}
variable {isNull : String → Bool} {ε : Type}
variable {takes : ε → List Handler → Handler → Prop}
variable {es : List Event} {e : Ending ε}

/-- Whatever is null, the stub has a run on which the tests find it so. -/
theorem exists_run_lower (t : Target) (mapped : MappedMethod)
    (signature : Signature) (implementation exceptionClass : String)
    (isNull : String → Bool) (takes : ε → List Handler → Handler → Prop) :
    ∃ es e, Stmt.RunsAll takes
        (lower t mapped signature implementation exceptionClass).stub.body
        es e ∧ Respects isNull es := by
  obtain ⟨es, e, run, tests⟩ := Stmt.exists_runsAll takes
    (fun condition => (holds? isNull (words condition.toList)).getD false)
    (lower t mapped signature implementation exceptionClass).stub.body
  exact ⟨es, e, run, respects_of_tests tests⟩

/-- Where no argument that is checked is null, none is refused. -/
theorem ne_nullArgument_of_run
    (accepted : Mapping.mapMethod t.name m = .ok mapped)
    (held : ∀ j ∈ checkedPositions m, isNull (argName j) = false)
    (run : Stmt.RunsAll takes
      (lower t mapped signature implementation exceptionClass).stub.body es e)
    (respects : Respects isNull es) : e ≠ .returned .nullArgument := by
  intro ended
  rw [body_lower accepted] at run
  obtain ⟨fs, behind, -, -⟩ :=
    (runsAll_refusals_append_iff held).mp ⟨run, respects⟩
  obtain ⟨value, other⟩ := (behind.comeFrom
    ((spared_refusesNull mapped).afterChecks _ _ _)).exit _ ended
  cases other

section Checks

variable {slots : List Slot} {i : Nat} {is : List Nat} {event : Event}

/-- A null check takes nothing from an argument. -/
theorem touches_of_mem_tests (member : event ∈ is.map (nullTest · false)) :
    touches slots isNull i event = false := by
  obtain ⟨j, -, rfl⟩ := List.mem_map.mp member
  rfl

/-- A refusal takes nothing from an argument. -/
theorem touches_of_mem_refused {owner : ClassName} {j : Nat}
    (member : event ∈ refused owner m j) :
    touches slots isNull i event = false := by
  simp only [refused, List.mem_cons, List.not_mem_nil, or_false] at member
  rcases member with rfl | rfl <;> rfl

end Checks

/-- A run either ends at the null checks, or gets past all of them. -/
theorem touches_eq_false_of_run
    (accepted : Mapping.mapMethod t.name m = .ok mapped)
    (run : Stmt.RunsAll takes
      (lower t mapped signature implementation exceptionClass).stub.body es e)
    (respects : Respects isNull es) {i : Nat}
    (null : isNull (argName i) = true) :
    ∀ event ∈ es, touches (slots mapped) isNull i event = false := by
  intro event member
  rw [body_lower accepted] at run
  by_cases held : ∀ j ∈ checkedPositions m, isNull (argName j) = false
  · obtain ⟨fs, later, -, rfl⟩ :=
      (runsAll_refusals_append_iff held).mp ⟨run, respects⟩
    rcases List.mem_append.mp member with test | behind
    · exact touches_of_mem_tests test
    · obtain ⟨s, clear, own⟩ := (later.comeFrom
        ((spared_touches (held_arguments accepted held) null).afterChecks
          _ _ _)).events event behind
      exact Bool.eq_false_iff.mpr (List.any_eq_false.mp clear event own)
  · push Not at held
    obtain ⟨k, least⟩ : ∃ k, IsLeast
        {j | j ∈ checkedPositions m ∧ isNull (argName j) = true} k :=
      ⟨_, Nat.isLeast_find (by simpa using held)⟩
    have ascending := (pairwise_positions m
      (takesHold m.flags.takesOwnership)).filter m.nullChecked
    obtain ⟨rfl, -⟩ :=
      (runsAll_refusals_iff ascending least).mp ⟨run, respects⟩
    rcases List.mem_append.mp member with test | last
    · exact touches_of_mem_tests test
    · exact touches_of_mem_refused last

end Runs

/-- The stub of a method that is mapped treats null as the method asks. -/
theorem nullSafe_lower (t : Target) (m : Method) (mapped : MappedMethod)
    (accepted : Mapping.mapMethod t.name m = .ok mapped)
    (signature : Signature) (implementation exceptionClass : String) :
    NullSafe t.name m
      (lower t mapped signature implementation exceptionClass).stub where
  checks := ⟨_, body_lower accepted signature implementation exceptionClass,
    (spared_refusesNull mapped).afterChecks _ _ _⟩
  slots := by
    obtain ⟨method, -, -⟩ := Mapping.mapMethod_eq_ok accepted
    change ((slots mapped).filter Slot.isArgument).map _ = _
    rw [filter_slots, ← map_index_arguments accepted, List.map_map,
      List.map_map]
    refine List.map_congr_left fun a member => ?_
    rw [Function.comp_apply, Argument.slot,
      nullable_of_mem_arguments member, method]
    rfl
  made slot member made := by
    rcases mem_slots member with ⟨a, inside, rfl⟩ | ⟨kind, rfl, -⟩
    · rw [isArgument_of_mem_arguments inside] at made
      cases made
    · rfl
  lengths := map_lines_lower accepted signature implementation exceptionClass
  acquisition number slot found onFailure := by
    have plain := isPlain_of_mem_slots (List.mem_of_getElem? found)
    refine ⟨slot.acquireLine, slot.failed, ?_, fun isNull =>
      ⟨Slot.performed_acquireLine plain, Slot.holds?_failed plain⟩⟩
    rw [Stmt.items, found]
  release number slot found mode := by
    have plain := isPlain_of_mem_slots (List.mem_of_getElem? found)
    refine ⟨slot.releaseLine mode, ?_, fun isNull =>
      Slot.performed_releaseLine plain mode⟩
    rw [Stmt.items, found]
    rfl
  refuses isNull i least ε takes es e := by
    rw [body_lower accepted]
    exact runsAll_refusals_iff ((pairwise_positions m _).filter _) least
  accepts _ held _ takes :=
    ⟨exists_run_lower t mapped signature implementation exceptionClass _ takes,
      fun _ _ run respects => ne_nullArgument_of_run accepted held run respects⟩
  untouched _ _ _ _ _ run respects event member _ null :=
    touches_eq_false_of_run accepted run respects null event member

/-- Of two null arguments, the one that is checked is refused. -/
theorem nullSafe_lower_mixedMethod :
    Mapping.mapMethod mixedTarget.name mixedMethod = .ok mixedMapped ∧
      ∀ es e, (Stmt.RunsAll anyHandler
            (lower mixedTarget mixedMapped default "mix" "a/E").stub.body es e ∧
          Respects (fun name => name ∈ ["a2", "a3"]) es) ↔
        es =
            [.tested "a0 == nullptr" false, .tested "a2 == nullptr" true,
              .raised "java/lang/NullPointerException"
                "\"argument 2 of a.C.mix is null\""] ∧
          e = .returned .nullArgument := by
  have checked : checkedPositions mixedMethod = [0, 2] := by
    decide
  have least : IsLeast
      {j | j ∈ checkedPositions mixedMethod ∧
        decide (argName j ∈ ["a2", "a3"]) = true} 2 := by
    rw [checked]
    refine ⟨⟨by decide, by decide⟩, fun j ⟨member, null⟩ => ?_⟩
    simp only [List.mem_cons, List.not_mem_nil, or_false] at member
    rcases member with rfl | rfl
    · revert null
      decide
    · exact le_rfl
  have events : ((checkedPositions mixedMethod).filter (· < 2)).map
        (nullTest · false) ++ refused mixedTarget.name mixedMethod 2 =
      [.tested "a0 == nullptr" false, .tested "a2 == nullptr" true,
        .raised "java/lang/NullPointerException"
          "\"argument 2 of a.C.mix is null\""] := by
    decide
  refine ⟨mapMethod_mixedMethod, fun es e => ?_⟩
  rw [← events]
  exact (nullSafe_lower mixedTarget mixedMethod mixedMapped
    mapMethod_mixedMethod default "mix" "a/E").refuses _ 2 least anyHandler es e

end Lowered

end Lowering
end NativeGlue
