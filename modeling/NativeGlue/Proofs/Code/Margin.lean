import NativeGlue.Proofs.Code.Blocks

/-!
# Text at the margin

A line outside of all blocks is written as it is. `Writes` says which text some
items add at the margin, where all blocks are closed before and after them, so
the text of a document is put together as its items are.

Main statements: `Writes.append`, `writes_lines` and `writes_block`.
-/

namespace NativeGlue
namespace Code

/-- The line that an item writes, if it is one outside of blocks. -/
def Item.line? : Item → Option String
  | .line text => some text
  | .blank => some ""
  | _ => none

/-- The text of lines at the margin. -/
def linesText (lines : List String) : String :=
  String.join (lines.map fun text => text ++ "\n")

/-- A text behind which a line starts. -/
def EndsLine (text : String) : Prop :=
  text = "" ∨ ∃ front, text = front ++ "\n"

/-- Items that add a text at the margin, whatever is written behind them. -/
def Writes (items : List Item) (text : String) : Prop :=
  ∀ rest, renderFrom 0 (items ++ rest) = text ++ renderFrom 0 rest

section Lines

theorem lineAt_of_ne_empty (depth : Nat) {text : String} (some : text ≠ "") :
    lineAt depth text = indent depth ++ text ++ "\n" := by
  rw [lineAt, if_neg]
  simpa using some

theorem lineAt_zero (text : String) : lineAt 0 text = text ++ "\n" := by
  by_cases empty : text = ""
  · subst empty
    rfl
  · have margin : indent 0 = "" := rfl
    rw [lineAt_of_ne_empty 0 empty, margin, String.empty_append]

theorem EndsLine.append {a b : String} (first : EndsLine a)
    (second : EndsLine b) : EndsLine (a ++ b) := by
  rcases second with rfl | ⟨front, rfl⟩
  · rwa [String.append_empty]
  · exact .inr ⟨a ++ front, (String.append_assoc ..).symm⟩

theorem endsLine_lineAt (depth : Nat) (text : String) :
    EndsLine (lineAt depth text) := by
  rw [lineAt]
  split
  · exact .inr ⟨"", (String.empty_append ..).symm⟩
  · exact .inr ⟨_, rfl⟩

/-- Text that is taken as it is ends with a line break too, if it is any. -/
theorem Item.endsLine_text (depth : Nat) (item : Item) :
    EndsLine (item.text depth) := by
  cases item with
  | raw t =>
      rw [Item.text]
      split
      · rename_i closed
        rw [Bool.or_eq_true, String.isEmpty_iff, decide_eq_true_iff] at closed
        rcases closed with rfl | last
        · exact .inl rfl
        · obtain ⟨front, eq⟩ := List.getLast?_eq_some_iff.mp last
          refine .inr ⟨String.ofList front, String.toList_injective ?_⟩
          simpa using eq
      · exact .inr ⟨t, rfl⟩
  | blank => exact .inr ⟨"", (String.empty_append ..).symm⟩
  | _ => exact endsLine_lineAt _ _

theorem endsLine_renderFrom (depth : Nat) (items : List Item) :
    EndsLine (renderFrom depth items) := by
  induction items generalizing depth with
  | nil => exact .inl rfl
  | cons item items ih => exact (item.endsLine_text depth).append (ih _)

/-- In texts with line breaks between them, each starts a line. -/
theorem exists_intercalate_eq {α : Type} {l : List α} {a : α} (member : a ∈ l)
    (text : α → String) :
    ∃ front back, EndsLine front ∧
      String.intercalate "\n" (l.map text) = front ++ text a ++ back := by
  induction l with
  | nil => cases member
  | cons first others ih =>
      cases others with
      | nil =>
          obtain rfl := List.mem_singleton.mp member
          exact ⟨"", "", .inl rfl, by simp⟩
      | cons second others =>
          rw [List.map_cons, List.map_cons, String.intercalate_cons_cons]
          rcases List.mem_cons.mp member with rfl | behind
          · refine ⟨"", "\n" ++ String.intercalate "\n"
              (text second :: others.map text), .inl rfl, ?_⟩
            rw [String.empty_append, String.append_assoc]
          · obtain ⟨front, back, starts, eq⟩ := ih behind
            rw [List.map_cons] at eq
            have line : EndsLine (text first ++ "\n") := .inr ⟨_, rfl⟩
            refine ⟨text first ++ "\n" ++ front, back, line.append starts, ?_⟩
            rw [eq]
            simp only [String.append_assoc]

end Lines

section Writing

variable {xs ys : List Item} {a b : String}

theorem Writes.render_eq (writes : Writes xs a) : render xs = a := by
  have whole := writes []
  rwa [List.append_nil, renderFrom, String.append_empty] at whole

theorem Writes.endsLine (writes : Writes xs a) : EndsLine a := by
  rw [← writes.render_eq]
  exact endsLine_renderFrom 0 xs

theorem writes_nil : Writes [] "" :=
  fun _ => (String.empty_append ..).symm

theorem Writes.append (first : Writes xs a) (second : Writes ys b) :
    Writes (xs ++ ys) (a ++ b) := by
  intro rest
  rw [List.append_assoc, first, second, String.append_assoc]

/-- Items that close all their blocks write their own text. -/
theorem Balanced.writes (balanced : Balanced xs) :
    Writes xs (renderFrom 0 xs) := by
  intro rest
  rw [renderFrom_append, balanced.wellBlocked.depthAfterAll_eq]

theorem writes_of_line? {item : Item} {text : String}
    (line : item.line? = some text) : Writes [item] (text ++ "\n") := by
  cases item with
  | line t =>
      cases line
      exact fun _ => congrArg (· ++ _) (lineAt_zero text)
  | blank =>
      cases line
      exact fun _ => rfl
  | _ => cases line

theorem writes_lines {lines : List String}
    (written : xs.map Item.line? = lines.map some) :
    Writes xs (linesText lines) := by
  induction xs generalizing lines with
  | nil =>
      rw [List.map_eq_nil_iff.mp written.symm]
      exact writes_nil
  | cons item xs ih =>
      obtain ⟨text, rest, rfl, line, behind⟩ :=
        List.map_eq_cons_iff.mp written.symm
      rw [linesText, List.map_cons, String.join_cons]
      exact (writes_of_line? line.symm).append (ih behind.symm)

theorem writes_flatMap {α : Type} {l : List α} {f : α → List Item}
    {text : α → String} (each : ∀ a ∈ l, Writes (f a) (text a)) :
    Writes (l.flatMap f) (String.join (l.map text)) := by
  induction l with
  | nil => exact writes_nil
  | cons a l ih =>
      rw [List.forall_mem_cons] at each
      rw [List.map_cons, String.join_cons]
      exact each.1.append (ih each.2)

/-- A block at the margin, with what is in it one step further in. -/
theorem writes_block (header trailer : String) {inside : List Item}
    (balanced : Balanced inside) :
    Writes (.openBlock header :: (inside ++ [.closeBlock trailer]))
      (header ++ " \x7b\n" ++ renderFrom 1 inside ++ "\x7d" ++ trailer
        ++ "\n") := by
  intro rest
  have first : (Item.openBlock header).text 0 = header ++ " \x7b" ++ "\n" :=
    lineAt_zero _
  have last : (Item.closeBlock trailer).text 1 = "\x7d" ++ trailer ++ "\n" :=
    lineAt_zero _
  rw [List.cons_append, renderFrom, first]
  change _ ++ renderFrom 1 _ = _
  rw [List.append_assoc, renderFrom_append,
    balanced.wellBlocked.depthAfterAll_eq, List.singleton_append, renderFrom,
    last]
  change _ ++ (_ ++ (_ ++ renderFrom 0 rest)) = _
  have opening : header ++ " \x7b\n" = header ++ " \x7b" ++ "\n" := by
    rw [String.append_assoc]
    rfl
  rw [opening]
  simp only [String.append_assoc]

end Writing

end Code
end NativeGlue
