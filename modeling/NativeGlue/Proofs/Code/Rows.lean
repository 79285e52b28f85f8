import NativeGlue.Proofs.Code.Margin

/-!
# Blocks of rows

A table is written as a block with one line for each of its rows. Where all
blocks before it are closed, the text has the header at the margin and each row
one step further in.
-/

namespace NativeGlue
namespace Code

/-- The header of the block that an item opens, if the item opens one only. -/
def Item.header? : Item → Option String
  | .openBlock header => some header
  | _ => none

/-- Items of which none opens or closes a block. -/
def IsFlat (items : List Item) : Prop :=
  ∀ item ∈ items, item.opens = false ∧ item.closes = false

/-- The headers of the blocks that items open. -/
def headers (items : List Item) : List String :=
  items.filterMap Item.header?

/-- The text of a block with some rows, at the margin. -/
def rowsText (header : String) (rows : List String) : String :=
  header ++ " \x7b\n" ++ String.join (rows.map fun row => "    " ++ row ++ "\n")
    ++ "\x7d;\n"

/-- Items of which one block, and no other under its header, has some rows. -/
structure HasRows (items : List Item) (header : String) (rows : List String) :
    Prop where
  placed : ∃ front back, items =
    front ++ .openBlock header :: (rows.map .line ++ .closeBlock ";" :: back)
  alone : (headers items).count header = 1
  written : ∃ front back,
    render items = front ++ rowsText header rows ++ back

section Balance

theorem IsFlat.append {xs ys : List Item} (first : IsFlat xs)
    (second : IsFlat ys) : IsFlat (xs ++ ys) := by
  intro item member
  rcases List.mem_append.mp member with inside | inside
  · exact first item inside
  · exact second item inside

theorem isFlat_map_line (texts : List String) :
    IsFlat (texts.map .line) := by
  intro item member
  obtain ⟨text, -, rfl⟩ := List.mem_map.mp member
  exact ⟨rfl, rfl⟩

theorem IsFlat.balanced {items : List Item} (flat : IsFlat items) :
    Balanced items := by
  induction items with
  | nil => exact balanced_nil
  | cons item items ih =>
      obtain ⟨⟨opens, closes⟩, later⟩ := List.forall_mem_cons.mp flat
      intro opened i
      obtain ⟨pairs, run⟩ := ih later opened (i + 1)
      exact ⟨_, .cons (.plain opens closes) run⟩

theorem balanced_flatMap {α : Type} {l : List α} {f : α → List Item}
    (each : ∀ a ∈ l, Balanced (f a)) : Balanced (l.flatMap f) := by
  induction l with
  | nil => exact balanced_nil
  | cons a l ih =>
      rw [List.forall_mem_cons] at each
      rw [List.flatMap_cons]
      exact each.1.append (ih each.2)

theorem balanced_rows (header trailer : String) (rows : List String) :
    Balanced
      (.openBlock header :: (rows.map .line ++ [.closeBlock trailer])) :=
  (isFlat_map_line rows).balanced.continues.block _ _

end Balance

section Headers

theorem headers_append (xs ys : List Item) :
    headers (xs ++ ys) = headers xs ++ headers ys :=
  List.filterMap_append ..

theorem IsFlat.headers_eq {items : List Item} (flat : IsFlat items) :
    headers items = [] := by
  refine List.filterMap_eq_nil_iff.mpr fun item member => ?_
  obtain ⟨opens, -⟩ := flat item member
  cases item with
  | openBlock => cases opens
  | _ => rfl

theorem headers_block (header : String) (rows : List String)
    (back : List Item) :
    headers (.openBlock header :: (rows.map .line ++ back)) =
      header :: headers back := by
  have inside : headers (rows.map .line ++ back) = headers back := by
    rw [headers_append, (isFlat_map_line rows).headers_eq, List.nil_append]
  exact congrArg (header :: ·) inside

end Headers

section Text

theorem renderFrom_rows {rows : List String} (some : ∀ row ∈ rows, row ≠ "") :
    renderFrom 1 (rows.map .line) =
      String.join (rows.map fun row => "    " ++ row ++ "\n") := by
  induction rows with
  | nil => rfl
  | cons row rows ih =>
      rw [List.forall_mem_cons] at some
      rw [List.map_cons, renderFrom, List.map_cons, String.join_cons, ← ih some.2]
      exact congrArg (· ++ _) (lineAt_of_ne_empty 1 some.1)

theorem writes_rows (header : String) {rows : List String}
    (some : ∀ row ∈ rows, row ≠ "") :
    Writes (.openBlock header :: (rows.map .line ++ [.closeBlock ";"]))
      (rowsText header rows) := by
  have block := writes_block header ";" (isFlat_map_line rows).balanced
  rw [renderFrom_rows some, String.append_assoc, String.append_assoc] at block
  exact block

/-- The text of a block with rows behind items that close all their blocks. -/
theorem hasRows_of_balanced {items front back : List Item} {header : String}
    {rows : List String}
    (placed : items =
      front ++ .openBlock header :: (rows.map .line ++ .closeBlock ";" :: back))
    (balanced : Balanced front) (some : ∀ row ∈ rows, row ≠ "")
    (alone : (headers items).count header = 1) :
    HasRows items header rows := by
  refine ⟨⟨front, back, placed⟩, alone, renderFrom 0 front,
    renderFrom 0 back, ?_⟩
  have written := (balanced.writes.append (writes_rows header some)) back
  rwa [List.append_assoc, List.cons_append, List.append_assoc,
    List.singleton_append, ← placed] at written

end Text

end Code
end NativeGlue
