import NativeGlue.Text.Digits

/-!
# JSON documents

The values that reports are made of, and their text: two blanks for each level
of nesting, an item or a field on each line, and nothing between the brackets
of an empty list.
-/

namespace NativeGlue

/-- A value of a report. -/
inductive Json where
  | number (n : Nat)
  | text (s : String)
  | array (items : List Json)
  | record (fields : List (String × Json))
deriving Inhabited

namespace Json

/-- The form of a character inside a text. -/
def escape (c : Char) : List Char :=
  match c with
  | '"' => ['\\', '"']
  | '\\' => ['\\', '\\']
  | '\x08' => ['\\', 'b']
  | '\x0c' => ['\\', 'f']
  | '\n' => ['\\', 'n']
  | '\r' => ['\\', 'r']
  | '\t' => ['\\', 't']
  | c =>
      if c.toNat < 0x20 then '\\' :: 'u' :: (Text.hex 4 c.toNat).toList
      else [c]

/-- A text between quotes. -/
def quote (s : String) : String :=
  String.ofList ('"' :: s.toList.flatMap escape ++ ['"'])

/-- The blanks in front of a line. -/
def indent (depth : Nat) : String :=
  String.ofList (List.replicate (2 * depth) ' ')

/-- Parts on lines of their own between brackets. -/
def bracket (depth : Nat) (left right : String) (parts : List String) :
    String :=
  if parts.isEmpty then
    left ++ right
  else
    left ++ "\n"
      ++ String.intercalate ",\n" (parts.map (indent (depth + 1) ++ ·))
      ++ "\n" ++ indent depth ++ right

mutual

/-- The text of a value at some depth. -/
def renderAt (depth : Nat) : Json → String
  | number n => toString n
  | text s => quote s
  | array items => bracket depth "[" "]" (renderItems (depth + 1) items)
  | record fields =>
      bracket depth "\x7b" "\x7d" (renderFields (depth + 1) fields)

/-- The texts of the items of a list. -/
def renderItems (depth : Nat) : List Json → List String
  | [] => []
  | v :: rest => renderAt depth v :: renderItems depth rest

/-- The texts of fields, names included. -/
def renderFields (depth : Nat) : List (String × Json) → List String
  | [] => []
  | (name, v) :: rest =>
      (quote name ++ ": " ++ renderAt depth v) :: renderFields depth rest

end

/-- The text of a document. -/
def render (v : Json) : String :=
  renderAt 0 v

end Json
end NativeGlue
