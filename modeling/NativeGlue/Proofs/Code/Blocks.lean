import Mathlib.Data.List.Basic
import Mathlib.Data.List.Perm.Basic
import NativeGlue.Code.Document

/-!
# Blocks of a document

A line that closes a block closes the one that was opened last among those
that are open, so the lines that open and close blocks are matched as brackets
are. Items are balanced if, whatever is open before them, the same is open
after them.

`PairsUp` follows items with a stack of the positions of blocks that are open.
All else is read off it: which lines belong together, that blocks are nested,
and that the depth is that before the items and one for each block opened
since.

Main statement: `Balanced.wellBlocked`.
-/

namespace NativeGlue
namespace Code

namespace Item

/-- Whether an item opens a block. -/
def opens : Item → Bool
  | openBlock _ => true
  | reopenBlock _ => true
  | _ => false

/-- Whether an item closes a block. -/
def closes : Item → Bool
  | closeBlock _ => true
  | reopenBlock _ => true
  | _ => false

end Item

/-- The depth after items that start at a depth. -/
def depthAfterAll (depth : Nat) (items : List Item) : Nat :=
  items.foldl Item.depthAfter depth

/--
Pairs of positions that match each line that closes a block with the line that
opens it.
-/
structure Matched (items : List Item) (pairs : List (Nat × Nat)) : Prop where
  /-- Each line that opens a block is in one pair. -/
  openings : (pairs.map Prod.fst).Perm (items.findIdxs Item.opens)
  /-- Each line that closes a block is in one pair. -/
  closings : pairs.map Prod.snd = items.findIdxs Item.closes
  order : ∀ p ∈ pairs, p.1 < p.2
  /-- A block that is opened inside another is closed inside it. -/
  nested : ∀ p ∈ pairs, ∀ q ∈ pairs, p.1 < q.1 → q.1 < p.2 → q.2 < p.2

/-- Items that open and close whole blocks, one inside another. -/
structure WellBlocked (items : List Item) : Prop where
  /-- They end at the depth at which they start. -/
  depthAfterAll_eq : ∀ depth, depthAfterAll depth items = depth
  /-- Between them it is never lower. -/
  le_depthAfterAll : ∀ depth front, front <+: items →
    depth ≤ depthAfterAll depth front
  /-- A block is only closed at a depth that is higher. -/
  lt_depthAfterAll : ∀ depth front item back,
    items = front ++ item :: back → item.closes = true →
      depth < depthAfterAll depth front
  matched : ∃ pairs, Matched items pairs

/--
What one item at a position does to the blocks that are open, the latest
first, and the pair that it makes if it closes one.
-/
inductive PairStep :
    List Nat → Nat → Item → List (Nat × Nat) → List Nat → Prop
  | plain {opened : List Nat} {i : Nat} {item : Item} :
      item.opens = false → item.closes = false →
        PairStep opened i item [] opened
  | openBlock {opened : List Nat} {i : Nat} {header : String} :
      PairStep opened i (.openBlock header) [] (i :: opened)
  | closeBlock {opened : List Nat} {i o : Nat} {trailer : String} :
      PairStep (o :: opened) i (.closeBlock trailer) [(o, i)] opened
  | reopenBlock {opened : List Nat} {i o : Nat} {header : String} :
      PairStep (o :: opened) i (.reopenBlock header) [(o, i)] (i :: opened)

/-- What items from a position on do to the blocks that are open. -/
inductive PairsUp :
    List Nat → Nat → List Item → List (Nat × Nat) → List Nat → Prop
  | nil {opened : List Nat} {i : Nat} : PairsUp opened i [] [] opened
  | cons {opened middle left : List Nat} {i : Nat} {item : Item}
      {rest : List Item} {made pairs : List (Nat × Nat)} :
      PairStep opened i item made middle →
        PairsUp middle (i + 1) rest pairs left →
        PairsUp opened i (item :: rest) (made ++ pairs) left

section Step

variable {opened left : List Nat} {i : Nat} {item : Item}
  {made : List (Nat × Nat)}

/-- The depth counts the blocks that are open. -/
theorem PairStep.depthAfter (step : PairStep opened i item made left)
    (depth : Nat) :
    item.depthAfter (depth + opened.length) = depth + left.length := by
  cases step with
  | plain opens closes =>
      cases item with
      | openBlock => cases opens
      | closeBlock => cases closes
      | reopenBlock => cases opens
      | _ => rfl
  | _ => rfl

theorem PairStep.map_snd (step : PairStep opened i item made left) :
    made.map Prod.snd = if item.closes then [i] else [] := by
  cases step with
  | plain _ closes => rw [closes, if_neg Bool.false_ne_true, List.map_nil]
  | _ => rfl

/-- What was open before is closed or open after it. -/
theorem PairStep.perm_openings (step : PairStep opened i item made left) :
    (made.map Prod.fst ++ left).Perm
      ((if item.opens then [i] else []) ++ opened) := by
  cases step with
  | plain opens _ => rw [opens, if_neg Bool.false_ne_true, List.map_nil]
  | openBlock => exact .refl _
  | closeBlock => exact .refl _
  | reopenBlock => exact .swap _ _ _

/-- Blocks that are open stand in front, the latest first. -/
theorem PairStep.pairwise (step : PairStep opened i item made left)
    (sorted : (i :: opened).Pairwise (· > ·)) :
    ((i + 1) :: left).Pairwise (· > ·) := by
  cases step <;> grind [List.pairwise_cons]

/-- A block that is closed starts and ends behind those that stay open. -/
theorem PairStep.outside (step : PairStep opened i item made left)
    (sorted : (i :: opened).Pairwise (· > ·)) :
    ∀ p ∈ made, p.2 = i ∧ ∀ o ∈ left, o < p.1 ∨ p.2 ≤ o := by
  cases step <;> grind [List.pairwise_cons]

theorem PairStep.lt (step : PairStep opened i item made left)
    (sorted : (i :: opened).Pairwise (· > ·)) :
    ∀ p ∈ made, p.1 < p.2 := by
  cases step <;> grind

end Step

namespace PairsUp

variable {opened middle left : List Nat} {i : Nat} {items rest : List Item}
  {pairs pairs' : List (Nat × Nat)}

theorem add_length_cons (i : Nat) (item : Item) (items : List Item) :
    i + (item :: items).length = i + 1 + items.length := by
  rw [List.length_cons, Nat.add_right_comm, Nat.add_assoc]

theorem append (first : PairsUp opened i items pairs middle)
    (second : PairsUp middle (i + items.length) rest pairs' left) :
    PairsUp opened i (items ++ rest) (pairs ++ pairs') left := by
  induction first with
  | nil => exact second
  | cons step _ ih =>
      rw [add_length_cons] at second
      rw [List.append_assoc]
      exact .cons step (ih second)

/-- Items in front of others do their part first. -/
theorem of_append (whole : PairsUp opened i (items ++ rest) pairs left) :
    ∃ middle front back, PairsUp opened i items front middle ∧
      PairsUp middle (i + items.length) rest back left := by
  induction items generalizing opened i pairs with
  | nil => exact ⟨opened, [], pairs, .nil, whole⟩
  | cons item items ih =>
      cases whole with
      | cons step tail =>
          obtain ⟨middle, front, back, first, second⟩ := ih tail
          rw [← add_length_cons i item] at second
          exact ⟨middle, _, back, .cons step first, second⟩

theorem depthAfterAll_eq (run : PairsUp opened i items pairs left)
    (depth : Nat) :
    depthAfterAll (depth + opened.length) items = depth + left.length := by
  induction run with
  | nil => rfl
  | cons step _ ih =>
      rw [depthAfterAll, List.foldl_cons, step.depthAfter]
      exact ih

theorem map_snd (run : PairsUp opened i items pairs left) :
    pairs.map Prod.snd = items.findIdxs Item.closes i := by
  induction run with
  | nil => rfl
  | cons step _ ih =>
      rw [List.map_append, step.map_snd, ih, List.findIdxs_cons]
      split <;> rfl

/-- Each block is opened by one of the items or was open before. -/
theorem perm_openings (run : PairsUp opened i items pairs left) :
    (pairs.map Prod.fst ++ left).Perm
      (items.findIdxs Item.opens i ++ opened) := by
  induction run with
  | nil => exact .refl _
  | @cons opened middle left i item rest made pairs step _ ih =>
      have own : ((if item.opens then [i] else [])
          ++ rest.findIdxs Item.opens (i + 1)) =
            (item :: rest).findIdxs Item.opens i := by
        rw [List.findIdxs_cons]
        split <;> rfl
      calc
        ((made ++ pairs).map Prod.fst ++ left)
            = made.map Prod.fst ++ (pairs.map Prod.fst ++ left) := by
          rw [List.map_append, List.append_assoc]
        List.Perm _ (made.map Prod.fst
            ++ (rest.findIdxs Item.opens (i + 1) ++ middle)) :=
          ih.append_left _
        List.Perm _ (rest.findIdxs Item.opens (i + 1)
            ++ (made.map Prod.fst ++ middle)) :=
          List.perm_append_comm_assoc ..
        List.Perm _ (rest.findIdxs Item.opens (i + 1)
            ++ ((if item.opens then [i] else []) ++ opened)) :=
          step.perm_openings.append_left _
        List.Perm _ ((if item.opens then [i] else [])
            ++ (rest.findIdxs Item.opens (i + 1) ++ opened)) :=
          List.perm_append_comm_assoc ..
        _ = (item :: rest).findIdxs Item.opens i ++ opened := by
          rw [← own, List.append_assoc]

/-- Pairs close behind the position, and open there or where it was open. -/
theorem bounds (run : PairsUp opened i items pairs left) :
    ∀ p ∈ pairs, i ≤ p.2 ∧ (p.1 ∈ opened ∨ i ≤ p.1) := by
  induction run with
  | nil => nofun
  | cons step _ ih =>
      intro p member
      cases step <;> grind

theorem lt (run : PairsUp opened i items pairs left)
    (sorted : (i :: opened).Pairwise (· > ·)) : ∀ p ∈ pairs, p.1 < p.2 := by
  induction run with
  | nil => nofun
  | cons step _ ih =>
      intro p member
      rcases List.mem_append.mp member with here | later
      · exact step.lt sorted p here
      · exact ih (step.pairwise sorted) p later

/-- What is closed later was opened before, around it, or is opened behind. -/
theorem nested (run : PairsUp opened i items pairs left)
    (sorted : (i :: opened).Pairwise (· > ·)) :
    pairs.Pairwise fun p q => p.2 < q.2 ∧ (q.1 < p.1 ∨ p.2 ≤ q.1) := by
  induction run with
  | nil => exact .nil
  | cons step tail ih =>
      refine List.pairwise_append.mpr ⟨?_, ih (step.pairwise sorted), ?_⟩
      · cases step <;> simp
      · intro p here q later
        obtain ⟨place, outside⟩ := step.outside sorted p here
        obtain ⟨behind, inside | further⟩ := tail.bounds q later
        · exact ⟨by omega, outside q.1 inside⟩
        · exact ⟨by omega, by omega⟩

end PairsUp

/-- Items that leave open just what was open before them. -/
def Balanced (items : List Item) : Prop :=
  ∀ opened i, ∃ pairs, PairsUp opened i items pairs opened

/-- Items that leave open one block for the latest that was open before. -/
def Continues (items : List Item) : Prop :=
  ∀ o opened i, ∃ o' pairs, PairsUp (o :: opened) i items pairs (o' :: opened)

section Balance

variable {xs ys : List Item}

theorem balanced_nil : Balanced [] :=
  fun _ _ => ⟨[], .nil⟩

theorem Balanced.append (first : Balanced xs) (second : Balanced ys) :
    Balanced (xs ++ ys) := by
  intro opened i
  obtain ⟨pairs, front⟩ := first opened i
  obtain ⟨pairs', back⟩ := second opened (i + xs.length)
  exact ⟨_, front.append back⟩

theorem balanced_line (text : String) : Balanced [.line text] :=
  fun _ _ => ⟨_, .cons (.plain rfl rfl) .nil⟩

theorem Balanced.continues (balanced : Balanced xs) : Continues xs := by
  intro o opened i
  obtain ⟨pairs, run⟩ := balanced (o :: opened) i
  exact ⟨o, pairs, run⟩

theorem Continues.append (first : Continues xs) (second : Continues ys) :
    Continues (xs ++ ys) := by
  intro o opened i
  obtain ⟨o', pairs, front⟩ := first o opened i
  obtain ⟨o'', pairs', back⟩ := second o' opened (i + xs.length)
  exact ⟨o'', _, front.append back⟩

/-- A block is closed where the next one is opened. -/
theorem Balanced.reopen (balanced : Balanced xs) (header : String) :
    Continues (.reopenBlock header :: xs) := by
  intro o opened i
  obtain ⟨pairs, run⟩ := balanced (i :: opened) (i + 1)
  exact ⟨i, _, .cons .reopenBlock run⟩

/-- What continues a block can stand between its first and last line. -/
theorem Continues.block (continues : Continues xs) (header trailer : String) :
    Balanced (.openBlock header :: (xs ++ [.closeBlock trailer])) := by
  intro opened i
  obtain ⟨o, pairs, run⟩ := continues i opened (i + 1)
  exact ⟨_, .cons .openBlock (run.append (.cons .closeBlock .nil))⟩

/-- The pairs of balanced items match the lines that close blocks. -/
theorem PairsUp.matched {items : List Item} {pairs : List (Nat × Nat)}
    (run : PairsUp [] 0 items pairs []) : Matched items pairs where
  openings := by simpa using run.perm_openings
  closings := run.map_snd
  order := run.lt (List.pairwise_singleton _ _)
  nested := by
    have ordered := List.pairwise_iff_getElem.mp
      (run.nested (List.pairwise_singleton _ _))
    intro p memberP q memberQ inside before
    obtain ⟨m, boundM, rfl⟩ := List.getElem_of_mem memberP
    obtain ⟨n, boundN, rfl⟩ := List.getElem_of_mem memberQ
    rcases Nat.lt_trichotomy m n with first | rfl | first
    · obtain ⟨-, outside⟩ := ordered m n boundM boundN first
      omega
    · omega
    · exact (ordered n m boundN boundM first).1

/-- Balanced items open and close whole blocks. -/
theorem Balanced.wellBlocked {items : List Item} (balanced : Balanced items) :
    WellBlocked items := by
  obtain ⟨pairs, run⟩ := balanced [] 0
  have opened {front back : List Item} (split : items = front ++ back)
      (depth : Nat) : ∃ middle made, PairsUp middle (0 + front.length) back
        made [] ∧ depthAfterAll depth front = depth + middle.length := by
    rw [split] at run
    obtain ⟨middle, closed, made, first, second⟩ := run.of_append
    exact ⟨middle, made, second, first.depthAfterAll_eq depth⟩
  constructor
  · intro depth
    exact run.depthAfterAll_eq depth
  · rintro depth front ⟨back, split⟩
    obtain ⟨middle, made, -, eq⟩ := opened split.symm depth
    omega
  · intro depth front item back split closes
    obtain ⟨middle, made, rest, eq⟩ := opened split depth
    have some : 0 < middle.length := by
      cases rest with
      | cons step _ =>
          cases step with
          | plain _ none => rw [none] at closes; cases closes
          | openBlock => cases closes
          | closeBlock => exact Nat.succ_pos _
          | reopenBlock => exact Nat.succ_pos _
    omega
  · exact ⟨pairs, run.matched⟩

/-- The text of items goes on at the depth that the first ones leave. -/
theorem renderFrom_append (depth : Nat) (xs ys : List Item) :
    renderFrom depth (xs ++ ys) =
      renderFrom depth xs ++ renderFrom (depthAfterAll depth xs) ys := by
  induction xs generalizing depth with
  | nil => exact (String.empty_append ..).symm
  | cons item xs ih =>
      rw [List.cons_append, renderFrom, renderFrom, ih, String.append_assoc]
      rfl

end Balance

end Code
end NativeGlue
