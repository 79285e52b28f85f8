import NativeGlue.Toml.Quoted

/-!
# Settings documents

A document is a sequence of lines: a header opens a table or adds one to an
array of tables, and an assignment gives a value to a key of the table that is
open. A key may lead through tables with dots. No key is given twice, and a
table is opened once. Keys have less than eighty parts, and values stand less
than eighty deep in each other.
-/

namespace NativeGlue
namespace Toml

/-- How a table came about. -/
inductive Origin where
  /-- On the way to a table below it. -/
  | passed
  /-- By a header of its own. -/
  | header
  /-- By a key with dots. -/
  | dotted
deriving DecidableEq, Repr

/-- What a key has while a document is read. -/
inductive Item where
  | value (v : Value)
  | table (origin : Origin) (entries : List (String × Item))
  | tables (rows : List (List (String × Item)))

/-- The entries of a table. -/
abbrev Entries := List (String × Item)

namespace Entries

/-- Changes what a key has; a change may be refused. -/
def alter (key : String) (f : Option Item → Option Item) :
    Entries → Option Entries
  | [] => (f none).map fun item => [(key, item)]
  | (k, item) :: rest =>
      if k = key then
        (f (some item)).map fun item => (k, item) :: rest
      else
        (alter key f rest).map fun rest => (k, item) :: rest

/-- Changes the last table of an array. -/
def alterLast (f : Entries → Option Entries) :
    List Entries → Option (List Entries)
  | [] => none
  | [row] => (f row).map fun row => [row]
  | row :: rest => (alterLast f rest).map fun rest => row :: rest

/-- Changes what a path of keys leads to, making tables on the way. -/
def alterPath (f : Option Item → Option Item) :
    List String → Entries → Option Entries
  | [], _ => none
  | [key], entries => alter key f entries
  | key :: path, entries =>
      alter key
        (fun
          | none => (alterPath f path []).map (.table .passed)
          | some (.table origin inner) =>
              (alterPath f path inner).map (.table origin)
          | some (.tables rows) =>
              (alterLast (alterPath f path) rows).map .tables
          | some (.value _) => none)
        entries

/-- Opens a table; one that was only passed may still be opened. -/
def openTable (path : List String) (entries : Entries) : Option Entries :=
  alterPath
    (fun
      | none => some (.table .header [])
      | some (.table .passed inner) => some (.table .header inner)
      | _ => none)
    path entries

/-- Adds a table to an array of tables. -/
def addTable (path : List String) (entries : Entries) : Option Entries :=
  alterPath
    (fun
      | none => some (.tables [[]])
      | some (.tables rows) => some (.tables (rows ++ [[]]))
      | _ => none)
    path entries

/-- Gives a key with dots a value. -/
def assign (v : Value) : List String → Entries → Option Entries
  | [], _ => none
  | [key], entries =>
      alter key (fun found => if found.isSome then none else some (.value v))
        entries
  | key :: path, entries =>
      alter key
        (fun
          | none => (assign v path []).map (.table .dotted)
          | some (.table .dotted inner) =>
              (assign v path inner).map (.table .dotted)
          | some (.table .passed inner) =>
              if path.length = 1 then none
              else (assign v path inner).map (.table .passed)
          | some (.tables rows) =>
              if path.length = 1 then none
              else (alterLast (assign v path) rows).map .tables
          | _ => none)
        entries

/-- Changes the table that is open. -/
def alterOpen (f : Entries → Option Entries) :
    List String → Entries → Option Entries
  | [], entries => f entries
  | key :: path, entries =>
      alter key
        (fun
          | some (.table origin inner) =>
              (alterOpen f path inner).map (.table origin)
          | some (.tables rows) =>
              (alterLast (alterOpen f path) rows).map .tables
          | _ => none)
        entries

end Entries

mutual

/-- The value of an item. -/
def Item.toValue : Item → Value
  | .value v => v
  | .table _ entries => .table (Item.toEntries entries)
  | .tables rows => .array (Item.toRows rows)

/-- The values of the tables of an array. -/
def Item.toRows : List (List (String × Item)) → List Value
  | [] => []
  | row :: rest => .table (Item.toEntries row) :: Item.toRows rest

/-- The values of entries. -/
def Item.toEntries : List (String × Item) → List (String × Value)
  | [] => []
  | entry :: rest => Item.toEntry entry :: Item.toEntries rest

/-- The value of an entry. -/
def Item.toEntry : String × Item → String × Value
  | (key, item) => (key, item.toValue)

end

/-- A character of a key without quotes. -/
def isKeyChar (c : Char) : Bool :=
  c.isAlphanum || c = '_' || c = '-'

/-- Reads one part of a key. -/
def readKeyPart (cs : List Char) : Option (String × List Char) :=
  match readShort cs with
  | some (text, rest) => some (String.ofList text, rest)
  | none =>
      let part := cs.takeWhile isKeyChar
      if part.isEmpty then none
      else some (String.ofList part, cs.dropWhile isKeyChar)

/-- Reads the parts of a key, which stand between dots. -/
def readParts : Nat → List Char → Option (List String × List Char)
  | 0, _ => none
  | fuel + 1, cs =>
      match readKeyPart (skipBlank cs) with
      | none => none
      | some (part, rest) =>
          match skipBlank rest with
          | '.' :: rest =>
              (readParts fuel rest).map fun (parts, rest) =>
                (part :: parts, rest)
          | rest => some ([part], rest)

/-- The number of parts that a key does not reach, nor values in each other. -/
def depthLimit : Nat := 80

/-- Reads a key. -/
def readKey (cs : List Char) : Option (List String × List Char) :=
  (readParts (cs.length + 1) cs).filter fun (parts, _) =>
    parts.length < depthLimit

/-- Reads a key and the equals sign after it. -/
def readTarget (cs : List Char) : Option (List String × List Char) :=
  match readKey cs with
  | some (key, '=' :: rest) => some (key, skipBlank rest)
  | _ => none

/-- Passes over a comment, if there is one; it may hold no control character. -/
def skipComment (cs : List Char) : List Char :=
  match cs with
  | '#' :: rest => rest.dropWhile isPlainChar
  | _ => cs

/-- Passes over blanks, comments and line breaks. -/
def skipSpace : Nat → List Char → List Char
  | 0, cs => cs
  | fuel + 1, cs =>
      let rest := skipComment (skipBlank cs)
      match newline? rest with
      | some rest => skipSpace fuel rest
      | none => rest

/-- Passes over what may stand between the values of an array. -/
def skipFiller (cs : List Char) : List Char :=
  skipSpace (cs.length + 1) cs

mutual

/-- Reads a value; other values may stand so deep in it as there is room. -/
def readValue : Nat → Nat → List Char → Option (Value × List Char)
  | 0, _, _ => none
  | fuel + 1, room, cs =>
      match cs with
      | '[' :: rest =>
          match room with
          | 0 => none
          | room + 1 =>
              (readItems fuel room (skipFiller rest)).map fun (items, rest) =>
                (.array items, rest)
      | '\x7b' :: rest =>
          match room with
          | 0 => none
          | room + 1 =>
              match skipBlank rest with
              | '\x7d' :: rest => some (.table [], rest)
              | rest =>
                  (readEntries fuel room [] rest).map fun (entries, rest) =>
                    (.table (Item.toEntries entries), rest)
      | _ =>
          match readString cs with
          | some (text, rest) => some (.string (String.ofList text), rest)
          | none =>
              let (word, rest) := takeWord cs
              (wordValue? word).map fun v => (v, rest)

/-- Reads the values of an array up to its closing bracket. -/
def readItems : Nat → Nat → List Char → Option (List Value × List Char)
  | 0, _, _ => none
  | fuel + 1, room, cs =>
      match cs with
      | ']' :: rest => some ([], rest)
      | _ =>
          match readValue fuel room cs with
          | none => none
          | some (v, rest) =>
              match skipFiller rest with
              | ']' :: rest => some ([v], rest)
              | ',' :: rest =>
                  (readItems fuel room (skipFiller rest)).map
                    fun (vs, rest) => (v :: vs, rest)
              | _ => none

/-- Reads the entries of a table on one line up to its closing brace. -/
def readEntries :
    Nat → Nat → Entries → List Char → Option (Entries × List Char)
  | 0, _, _, _ => none
  | fuel + 1, room, entries, cs =>
      match readTarget cs with
      | none => none
      | some (key, rest) =>
          match readValue fuel room rest with
          | none => none
          | some (v, rest) =>
              match entries.assign v key, skipBlank rest with
              | some entries, '\x7d' :: rest => some (entries, rest)
              | some entries, ',' :: rest =>
                  readEntries fuel room entries rest
              | _, _ => none

end

/-- A document that is being read: its tables, and the path of the open one. -/
structure Draft where
  root : Entries
  current : List String

/-- Passes over the rest of a line, on which only a comment may stand. -/
def endLine (cs : List Char) : Option (List Char) :=
  match skipComment (skipBlank cs) with
  | [] => some []
  | rest => newline? rest

/-- Reads a line. -/
def readLine (d : Draft) (cs : List Char) : Option (Draft × List Char) :=
  match cs with
  | '[' :: '[' :: rest =>
      match readKey rest with
      | some (path, ']' :: ']' :: rest) =>
          (d.root.addTable path).map fun root => (⟨root, path⟩, rest)
      | _ => none
  | '[' :: rest =>
      match readKey rest with
      | some (path, ']' :: rest) =>
          (d.root.openTable path).map fun root => (⟨root, path⟩, rest)
      | _ => none
  | _ =>
      match readTarget cs with
      | none => none
      | some (key, rest) =>
          match readValue (rest.length + 1) (depthLimit - 1) rest with
          | none => none
          | some (v, rest) =>
              (Entries.alterOpen (Entries.assign v key) d.current d.root).map
                fun root => ({ d with root }, rest)

/-- Reads lines to the end of a document. -/
def readAllLines : Nat → Draft → List Char → Option Draft
  | 0, _, _ => none
  | fuel + 1, d, cs =>
      match skipFiller cs with
      | [] => some d
      | rest =>
          match readLine d rest with
          | none => none
          | some (d, rest) =>
              match endLine rest with
              | none => none
              | some rest => readAllLines fuel d rest

/-- Reads a document; a byte order mark in front does not count. -/
def parse (source : String) : Option Value :=
  let cs :=
    match source.toList with
    | '\ufeff' :: cs => cs
    | cs => cs
  (readAllLines (cs.length + 1) ⟨[], []⟩ cs).map fun d =>
    .table (Item.toEntries d.root)

end Toml
end NativeGlue
