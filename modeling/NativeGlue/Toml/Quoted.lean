import NativeGlue.Toml.Scalar

/-!
# Strings in settings documents

A string stands between double quotes, with escapes, or between single quotes,
without; three quotes make a string that may run over several lines. A reader
takes the text after the opening quotes and gives the characters of the string
with the text after the closing quotes.
-/

namespace NativeGlue
namespace Toml

/-- A character that may stand unescaped, apart from quotes. -/
def isPlainChar (c : Char) : Bool :=
  c = '\t' || (0x20 ≤ c.toNat && c.toNat ≠ 0x7F)

/-- Passes over a line break. -/
def newline? : List Char → Option (List Char)
  | '\n' :: rest => some rest
  | '\r' :: '\n' :: rest => some rest
  | _ => none

/-- Passes over spaces and tabs. -/
def skipBlank (cs : List Char) : List Char :=
  cs.dropWhile fun c => c = ' ' || c = '\t'

/-- The character of a code in hexadecimal digits. -/
def unicode? (digits : List Char) : Option Char :=
  match digits.mapM (digitValue? 16) with
  | none => none
  | some ds =>
      let n := numberOf 16 ds
      if n < 0xD800 ∨ (0xE000 ≤ n ∧ n < 0x110000) then some (Char.ofNat n)
      else none

/-- A code of exactly `n` digits, and the text after it. -/
def code? (n : Nat) (cs : List Char) : Option (Char × List Char) :=
  if (cs.take n).length = n then
    (unicode? (cs.take n)).map fun c => (c, cs.drop n)
  else
    none

/-- The character of an escape, whose backslash has been read. -/
def escape? : List Char → Option (Char × List Char)
  | 'b' :: cs => some ('\x08', cs)
  | 't' :: cs => some ('\t', cs)
  | 'n' :: cs => some ('\n', cs)
  | 'f' :: cs => some ('\x0c', cs)
  | 'r' :: cs => some ('\r', cs)
  | '"' :: cs => some ('"', cs)
  | '\\' :: cs => some ('\\', cs)
  | 'u' :: cs => code? 4 cs
  | 'U' :: cs => code? 8 cs
  | _ => none

/-- What a reader of strings gives: the string, and the text after it. -/
abbrev ReadText := Option (List Char × List Char)

/-- A character in front of the string that is read. -/
def ReadText.cons (c : Char) (r : ReadText) : ReadText :=
  r.map fun (text, rest) => (c :: text, rest)

/-- Reads a string between double quotes. -/
def readBasic : Nat → List Char → ReadText
  | 0, _ => none
  | fuel + 1, cs =>
      match cs with
      | [] => none
      | '"' :: rest => some ([], rest)
      | '\\' :: rest =>
          match escape? rest with
          | none => none
          | some (c, rest) => (readBasic fuel rest).cons c
      | c :: rest =>
          if isPlainChar c then (readBasic fuel rest).cons c else none

/-- Reads a string between single quotes. -/
def readLiteral : List Char → ReadText
  | [] => none
  | '\'' :: rest => some ([], rest)
  | c :: rest => if isPlainChar c then (readLiteral rest).cons c else none

/--
Closing quotes. Up to two further quotes before the closing three belong to
the string.
-/
def closing? (quote : Char) (cs : List Char) : ReadText :=
  let run := (cs.takeWhile (· = quote)).length
  if run < 3 then none
  else some (List.replicate (min 2 (run - 3)) quote, cs.drop (min 5 run))

/-- Passes over blanks and line breaks after a backslash at a line's end. -/
def skipLines : List Char → List Char
  | ' ' :: cs => skipLines cs
  | '\t' :: cs => skipLines cs
  | '\n' :: cs => skipLines cs
  | '\r' :: '\n' :: cs => skipLines cs
  | cs => cs

/-- Reads a string of several lines, with escapes if they are allowed. -/
def readLines (quote : Char) (escapes : Bool) : Nat → List Char → ReadText
  | 0, _ => none
  | fuel + 1, cs =>
      match closing? quote cs with
      | some closed => some closed
      | none =>
          match newline? cs with
          | some rest => (readLines quote escapes fuel rest).cons '\n'
          | none =>
              match cs with
              | [] => none
              | c :: rest =>
                  if escapes && c = '\\' then
                    match newline? (skipBlank rest) with
                    | some rest =>
                        readLines quote escapes fuel (skipLines rest)
                    | none =>
                        match escape? rest with
                        | none => none
                        | some (c, rest) =>
                            (readLines quote escapes fuel rest).cons c
                  else if isPlainChar c then
                    (readLines quote escapes fuel rest).cons c
                  else
                    none

/-- A text without the line break that it starts with. -/
def dropNewline (cs : List Char) : List Char :=
  (newline? cs).getD cs

/-- Reads a string of one line. -/
def readShort (cs : List Char) : ReadText :=
  match cs with
  | '"' :: rest => readBasic (rest.length + 1) rest
  | '\'' :: rest => readLiteral rest
  | _ => none

/-- Reads a string of either kind. -/
def readString (cs : List Char) : ReadText :=
  match cs with
  | '"' :: '"' :: '"' :: rest =>
      readLines '"' true (rest.length + 1) (dropNewline rest)
  | '\'' :: '\'' :: '\'' :: rest =>
      readLines '\'' false (rest.length + 1) (dropNewline rest)
  | _ => readShort cs

end Toml
end NativeGlue
