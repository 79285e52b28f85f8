/-!
# Source text in blocks

Generated code is a list of items: lines, text taken as it is, and the lines
that open and close blocks. Rendering follows the items with a depth, and a
line is indented by its depth.
-/

namespace NativeGlue
namespace Code

/-- One step in writing source text. -/
inductive Item where
  /-- A line at the current depth; an empty line is not indented. -/
  | line (text : String)
  /-- Text as it is, closed with a line break if it lacks one. -/
  | raw (text : String)
  /-- An empty line. -/
  | blank
  /-- A line that opens a block. -/
  | openBlock (header : String)
  /-- The line that closes a block, with what follows the brace. -/
  | closeBlock (trailer : String)
  /-- A line that closes a block and opens the next one. -/
  | reopenBlock (header : String)
deriving DecidableEq, Repr, Inhabited

/-- The indentation at a depth: four spaces for each block. -/
def indent (depth : Nat) : String :=
  String.ofList (List.replicate (4 * depth) ' ')

/-- A line with its indentation and line break. -/
def lineAt (depth : Nat) (text : String) : String :=
  if text.isEmpty then "\n" else indent depth ++ text ++ "\n"

namespace Item

/-- What an item writes at a depth. -/
def text (depth : Nat) : Item → String
  | line t => lineAt depth t
  | raw t =>
      if t.isEmpty || t.toList.getLast? = some '\n' then t else t ++ "\n"
  | blank => "\n"
  | openBlock header => lineAt depth (header ++ " \x7b")
  | closeBlock trailer => lineAt (depth - 1) ("\x7d" ++ trailer)
  | reopenBlock header => lineAt (depth - 1) ("\x7d " ++ header ++ " \x7b")

/-- The depth after an item. -/
def depthAfter (depth : Nat) : Item → Nat
  | openBlock _ => depth + 1
  | closeBlock _ => depth - 1
  | reopenBlock _ => depth - 1 + 1
  | _ => depth

end Item

/-- The text of items that start at a depth. -/
def renderFrom (depth : Nat) : List Item → String
  | [] => ""
  | item :: rest =>
      item.text depth ++ renderFrom (item.depthAfter depth) rest

/-- The text of items. -/
def render (items : List Item) : String :=
  renderFrom 0 items

end Code
end NativeGlue
