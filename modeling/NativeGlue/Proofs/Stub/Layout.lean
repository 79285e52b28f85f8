import NativeGlue.Proofs.Code.Blocks
import NativeGlue.Proofs.Stub.Balance
import NativeGlue.Stub.Render

/-!
# Layout of stubs

A stub is written statement by statement, and a statement that names a slot is
written with the slot of that number.

**Slots.** Each number that a lowered body names, at whatever depth, is that of
a slot of the stub.

**Blocks.** Every statement opens and closes whole blocks, by induction over
statements: handlers close the block before them and open their own, which the
end of the statement closes. So a stub ends at the depth at which it starts.

Main statement: `inRange_and_wellBlocked`.
-/

namespace NativeGlue
namespace Stub

mutual

/-- The numbers of the slots that a statement names. -/
def Stmt.slotNumbers : Stmt → List Nat
  | .acquire number onFailure => number :: Stmt.slotNumbersAll onFailure
  | .release number _ => [number]
  | .transfer number _ => [number]
  | .ifThen _ body => Stmt.slotNumbersAll body
  | .tryCatch body handlers =>
      Stmt.slotNumbersAll body ++ Handler.slotNumbersAll handlers
  | _ => []

/-- The numbers of the slots that a block names. -/
def Stmt.slotNumbersAll : List Stmt → List Nat
  | [] => []
  | stmt :: rest => stmt.slotNumbers ++ Stmt.slotNumbersAll rest

/-- The numbers of the slots that a handler names. -/
def Handler.slotNumbers : Handler → List Nat
  | .mk _ body => Stmt.slotNumbersAll body

/-- The numbers of the slots that handlers name. -/
def Handler.slotNumbersAll : List Handler → List Nat
  | [] => []
  | h :: rest => h.slotNumbers ++ Handler.slotNumbersAll rest

end

/-- Whether a stub has all slots that its body names. -/
def InRange (s : Stub) : Prop :=
  ∀ number ∈ Stmt.slotNumbersAll s.body, number < s.slots.length

theorem InRange.exists_slot? {s : Stub} (inRange : s.InRange) {number : Nat}
    (named : number ∈ Stmt.slotNumbersAll s.body) :
    ∃ slot, s.slot? number = some slot :=
  ⟨_, List.getElem?_eq_getElem (inRange number named)⟩

@[simp] theorem Stmt.slotNumbersAll_append (xs ys : List Stmt) :
    Stmt.slotNumbersAll (xs ++ ys) =
      Stmt.slotNumbersAll xs ++ Stmt.slotNumbersAll ys := by
  induction xs with
  | nil => rfl
  | cons x xs ih =>
      rw [List.cons_append, slotNumbersAll, slotNumbersAll, ih,
        List.append_assoc]

theorem Stmt.slotNumbersAll_eq_flatMap (body : List Stmt) :
    Stmt.slotNumbersAll body = body.flatMap Stmt.slotNumbers := by
  induction body with
  | nil => rfl
  | cons s rest ih => rw [slotNumbersAll, ih, List.flatMap_cons]

section Blocks

open Code

variable (s : Stub)

mutual

/-- A statement opens and closes whole blocks. -/
theorem Stmt.balanced_items : ∀ stmt : Stmt, Balanced (stmt.items s)
  | .line text => balanced_line text
  | .call text => balanced_line text
  | .raise _ _ => balanced_line _
  | .ret _ _ => balanced_line _
  | .release number mode => by
      rw [Stmt.items]
      cases s.slot? number with
      | none => exact balanced_nil
      | some slot => exact balanced_line _
  | .transfer number into => by
      rw [Stmt.items]
      cases (s.slot? number).bind fun slot => slot.transferLine? into with
      | none => exact balanced_nil
      | some text => exact balanced_line text
  | .acquire number onFailure => by
      rw [Stmt.items]
      cases s.slot? number with
      | none => exact balanced_nil
      | some slot =>
          have failure : Balanced (if onFailure.isEmpty then
                []
              else
                .openBlock ("if (" ++ slot.failed ++ ")")
                  :: (Stmt.itemsAll s onFailure ++ [.closeBlock ""])) := by
            split
            · exact balanced_nil
            · exact (Stmt.balanced_itemsAll onFailure).continues.block _ _
          exact (balanced_line slot.acquireLine).append failure
  | .ifThen condition body => by
      rw [Stmt.items]
      exact (Stmt.balanced_itemsAll body).continues.block _ _
  | .tryCatch body handlers => by
      rw [Stmt.items, ← List.append_assoc]
      exact ((Stmt.balanced_itemsAll body).continues.append
        (Handler.continues_itemsAll handlers)).block _ _

theorem Stmt.balanced_itemsAll :
    ∀ body : List Stmt, Balanced (Stmt.itemsAll s body)
  | [] => balanced_nil
  | stmt :: rest =>
      (Stmt.balanced_items stmt).append (Stmt.balanced_itemsAll rest)

/-- Handlers close the block that is open and open blocks of their own. -/
theorem Handler.continues_itemsAll :
    ∀ handlers : List Handler, Continues (Handler.itemsAll s handlers)
  | [] => balanced_nil.continues
  | .mk exceptions body :: rest =>
      ((Stmt.balanced_itemsAll body).reopen exceptions.header).append
        (Handler.continues_itemsAll rest)

end

theorem balanced_items : Balanced s.items :=
  (Stmt.balanced_itemsAll s s.body).continues.block _ _

end Blocks

end Stub

namespace Lowering

open Stub

section Slots

variable {m : MappedMethod} {number : Nat}

theorem slotNumbersAll_releaseAll (mode : ReleaseMode) (numbers : List Nat) :
    Stmt.slotNumbersAll (releaseAll mode numbers) = numbers.reverse := by
  rw [Stmt.slotNumbersAll_eq_flatMap, releaseAll, List.flatMap_map]
  exact List.flatMap_pure_eq_map _ _ |>.trans (List.map_id _)

theorem slotNumbersAll_nullChecks (owner : ClassName) (m : MappedMethod) :
    Stmt.slotNumbersAll (nullChecks owner m) = [] := by
  rw [Stmt.slotNumbersAll_eq_flatMap, nullChecks, List.flatMap_map,
    List.flatMap_eq_nil_iff]
  intro a _
  rfl

theorem slotNumbersAll_lengthLine (a : Argument) :
    Stmt.slotNumbersAll (lengthLine a) = [] := by
  unfold lengthLine
  split <;> rfl

theorem slotNumbersAll_fillResult (resource : Resource) :
    Stmt.slotNumbersAll (fillResult resource) = [] := by
  unfold fillResult
  split <;> rfl

/-- Acquisitions name their own slots and those that are held before. -/
theorem lt_of_mem_acquisitions {start : Nat} {args : List Argument}
    (named : number ∈ Stmt.slotNumbersAll (acquisitions m start args)) :
    number < start + args.length := by
  induction args generalizing start with
  | nil => cases named
  | cons a args ih =>
      rw [acquisitions, Stmt.slotNumbersAll_append, slotNumbersAll_lengthLine,
        List.nil_append, Stmt.slotNumbersAll, Stmt.slotNumbers,
        Stmt.slotNumbersAll_append, slotNumbersAll_releaseAll] at named
      simp only [Stmt.slotNumbersAll, returnDefault, Stmt.slotNumbers,
        List.append_nil, List.cons_append, List.mem_cons, List.mem_append,
        List.mem_reverse, List.mem_range] at named
      rw [List.length_cons]
      rcases named with rfl | held | later
      · omega
      · omega
      · have := ih later
        omega

theorem lt_of_mem_heldSlots (held : number ∈ heldSlots m) :
    number < (arguments m).length := by
  have inside : number ∈ (arguments m).zipIdx.map Prod.snd :=
    (List.filter_sublist.map _).subset held
  rwa [zipIdx_map_snd, List.mem_range] at inside

theorem lt_of_mem_transfers
    (named : number ∈ Stmt.slotNumbersAll (transfers m)) :
    number < (arguments m).length := by
  rw [Stmt.slotNumbersAll_eq_flatMap, transfers, List.flatMap_map,
    List.mem_flatMap] at named
  obtain ⟨x, member, named⟩ := named
  have inside : x.2 ∈ (arguments m).zipIdx.map Prod.snd :=
    List.mem_map_of_mem (List.mem_of_mem_filter member)
  rw [zipIdx_map_snd, List.mem_range] at inside
  rwa [List.mem_singleton.mp named]

theorem length_slots (m : MappedMethod) :
    (slots m).length = (arguments m).length
      + (resultResource? m.ret.carriage).toList.length := by
  simp [slots]

theorem slotNumbersAll_returnResult_of_none
    (made : resultResource? m.ret.carriage = none) :
    Stmt.slotNumbersAll (returnResult m) = [] := by
  rw [returnResult, made]
  dsimp only
  split
  · split <;> rfl
  · rfl

/-- The slot of a result is named if there is one. -/
theorem lt_of_mem_returnResult
    (named : number ∈ Stmt.slotNumbersAll (returnResult m)) :
    number < (slots m).length := by
  rw [length_slots]
  cases made : resultResource? m.ret.carriage with
  | none =>
      rw [slotNumbersAll_returnResult_of_none made] at named
      cases named
  | some resource =>
      have own : number = (arguments m).length := by
        simpa [returnResult, made, Stmt.slotNumbersAll, Stmt.slotNumbers,
          slotNumbersAll_fillResult] using named
      rw [own]
      exact Nat.lt_succ_self _

theorem lt_of_mem_handler {exceptionClass : String} {exceptions : Catch}
    {message : String}
    (named : number ∈
      (handler m exceptionClass exceptions message).slotNumbers) :
    number < (arguments m).length := by
  rw [handler, Handler.slotNumbers, Stmt.slotNumbersAll_append,
    slotNumbersAll_releaseAll, List.mem_append, List.mem_reverse] at named
  rcases named with held | raised
  · exact lt_of_mem_heldSlots held
  · cases raised

theorem lt_of_mem_guardedCall {space : List String}
    {implementation exceptionClass : String}
    (named : number ∈
      (guardedCall m space implementation exceptionClass).slotNumbers) :
    number < (slots m).length := by
  have first : (arguments m).length ≤ (slots m).length := by
    rw [length_slots]
    exact Nat.le_add_right _ _
  simp only [guardedCall, Stmt.slotNumbers, Stmt.slotNumbersAll_append,
    Stmt.slotNumbersAll, Handler.slotNumbersAll, slotNumbersAll_releaseAll,
    List.mem_append, List.mem_reverse, List.append_nil, List.nil_append]
    at named
  rcases named with ((moved | held) | returned) | handled | handled
  · exact (lt_of_mem_transfers moved).trans_le first
  · exact (lt_of_mem_heldSlots held).trans_le first
  · exact lt_of_mem_returnResult returned
  · exact (lt_of_mem_handler handled).trans_le first
  · exact (lt_of_mem_handler handled).trans_le first

/-- A lowered stub has all slots that its body names. -/
theorem inRange_lower (t : Target) (m : MappedMethod) (signature : Signature)
    (implementation exceptionClass : String) :
    (lower t m signature implementation exceptionClass).stub.InRange := by
  intro number named
  change number ∈ Stmt.slotNumbersAll (body ..) at named
  change number < (slots m).length
  rw [body, Stmt.slotNumbersAll_append, Stmt.slotNumbersAll_append,
    slotNumbersAll_nullChecks, List.nil_append, List.mem_append] at named
  rcases named with acquired | guarded
  · have inside := lt_of_mem_acquisitions acquired
    rw [length_slots]
    omega
  · rw [Stmt.slotNumbersAll, Stmt.slotNumbersAll, List.append_nil] at guarded
    exact lt_of_mem_guardedCall guarded

end Slots

end Lowering

namespace Stub

/--
The body of every lowered stub names slots of the stub alone. Every stub whose
body does is written with the slots that it names. What is written opens and
closes whole blocks, whatever is nested in it: from any depth on it is never
lower, no block is closed where none has been opened, each line that closes a
block is matched with the line that opens it, and behind the stub the text goes
on at the depth before it.
-/
theorem inRange_and_wellBlocked :
    (∀ (t : Target) (m : MappedMethod) (signature : Signature)
      (implementation exceptionClass : String),
      (Lowering.lower t m signature implementation
        exceptionClass).stub.InRange) ∧
    ∀ s : Stub, s.InRange →
      (∀ number ∈ Stmt.slotNumbersAll s.body,
        ∃ slot, s.slot? number = some slot) ∧
      Code.WellBlocked s.items ∧
      ∀ depth rest, Code.renderFrom depth (s.items ++ rest) =
        Code.renderFrom depth s.items ++ Code.renderFrom depth rest := by
  refine ⟨Lowering.inRange_lower, fun s inRange => ?_⟩
  have blocks := (balanced_items s).wellBlocked
  refine ⟨fun number => inRange.exists_slot?, blocks, fun depth rest => ?_⟩
  rw [Code.renderFrom_append, blocks.depthAfterAll_eq]

/-- A stub with blocks inside a failure, a condition and handlers. -/
def nestedStub : Stub where
  symbol := "Java_a_B_f"
  returnType := "void"
  params := [("JNIEnv*", "env")]
  slots := [⟨"s0", "a0", .stringChars, true⟩]
  body :=
    [.tryCatch
      [.acquire 0 [.ifThen "a0 != nullptr" [.release 0 .abort]], .call "f();"]
      [.mk .std [.tryCatch [.release 0 .abort] []],
        .mk .any [.ret .void .nativeException]]]

theorem inRange_and_wellBlocked_nestedStub :
    nestedStub.InRange ∧ nestedStub.slot? 0 ≠ none ∧
      Code.WellBlocked nestedStub.items := by
  have inRange : nestedStub.InRange := by
    unfold InRange
    decide
  obtain ⟨named, blocks, -⟩ := inRange_and_wellBlocked.2 nestedStub inRange
  obtain ⟨slot, eq⟩ := named 0 (by decide)
  exact ⟨inRange, by simp [eq], blocks⟩

end Stub
end NativeGlue
