import NativeGlue.Text.Basic
import NativeGlue.Toml.Value

/-!
# Words in settings documents

Booleans, numbers and moments are written without quotes. A word is taken up
to a character that no such value has, and must then be exactly one of them.
-/

namespace NativeGlue
namespace Toml

/-- A digit in a base up to sixteen. -/
def digitValue? (base : Nat) (c : Char) : Option Nat :=
  let value :=
    if c.isDigit then c.toNat - 48
    else if 'a' ≤ c ∧ c ≤ 'f' then c.toNat - 87
    else if 'A' ≤ c ∧ c ≤ 'F' then c.toNat - 55
    else base
  if value < base then some value else none

/-- Digits in which single underscores may stand between two of them. -/
def digits? (base : Nat) (cs : List Char) : Option (List Nat) :=
  let group? (group : List Char) : Option (List Nat) :=
    if group.isEmpty then none else group.mapM (digitValue? base)
  ((Text.fields '_' cs).mapM group?).map List.flatten

/-- The number that digits stand for. -/
def numberOf (base : Nat) (digits : List Nat) : Nat :=
  digits.foldl (fun n d => n * base + d) 0

/-- A decimal number, where a zero in front stands alone. -/
def decimal? (cs : List Char) : Option Nat :=
  match cs with
  | '0' :: _ :: _ => none
  | _ => (digits? 10 cs).map (numberOf 10)

/-- A sign, if there is one, and what follows it. -/
def splitSign : List Char → Bool × List Char
  | '+' :: cs => (false, cs)
  | '-' :: cs => (true, cs)
  | cs => (false, cs)

/-- An integer that 64 bits hold. -/
def integer? (cs : List Char) : Option Int :=
  let value : Option Int :=
    match cs with
    | '0' :: 'x' :: ds => (digits? 16 ds).map fun d => Int.ofNat (numberOf 16 d)
    | '0' :: 'o' :: ds => (digits? 8 ds).map fun d => Int.ofNat (numberOf 8 d)
    | '0' :: 'b' :: ds => (digits? 2 ds).map fun d => Int.ofNat (numberOf 2 d)
    | _ =>
        let (negative, ds) := splitSign cs
        (decimal? ds).map fun n => if negative then -Int.ofNat n else Int.ofNat n
  value.filter fun n => Int64.minValue.toInt ≤ n && n ≤ Int64.maxValue.toInt

/-- A decimal number as it is written: some digits, and a power of ten. -/
structure Decimal where
  negative : Bool
  digits : List Nat
  power : Int
deriving DecidableEq, Repr, Inhabited

namespace Decimal

/-- The least size that no number in 64 bits comes near. -/
def limit : Nat := Nat.pow 2 1024 - Nat.pow 2 970

/-- The number of digits in the largest numbers in 64 bits. -/
def limitDigits : Nat := 309

/-- Whether a decimal is at least the limit; its digits are counted first. -/
def isTooLarge (d : Decimal) : Bool :=
  let significant := d.digits.dropWhile (· = 0)
  let places := (significant.length : Int) + d.power
  let n := numberOf 10 significant
  if d.negative || significant.isEmpty || places < limitDigits then false
  else if limitDigits < places then true
  else
    limit * Nat.pow 10 (-d.power).toNat ≤ n * Nat.pow 10 d.power.toNat

end Decimal

/-- The value of an exponent, with an optional sign. -/
def exponent? (cs : List Char) : Option Int :=
  let (negative, ds) := splitSign cs
  (digits? 10 ds).map fun digits =>
    let n := Int.ofNat (numberOf 10 digits)
    if negative then -n else n

/-- The digits of a decimal number, where a zero in front stands alone. -/
def wholeDigits? (cs : List Char) : Option (List Nat) :=
  if (decimal? cs).isSome then digits? 10 cs else none

/-- A number with a fraction, an exponent or both. -/
def float? (cs : List Char) : Option Decimal :=
  let (negative, body) := splitSign cs
  let isE (c : Char) : Bool := c = 'e' || c = 'E'
  let front := body.takeWhile fun c => !isE c
  let tail := body.dropWhile fun c => !isE c
  let power? := if tail.isEmpty then some 0 else exponent? tail.tail
  match Text.splitFirst? '.' front with
  | some (whole, fraction) =>
      match wholeDigits? whole, digits? 10 fraction, power? with
      | some ds, some fs, some power =>
          some ⟨negative, ds ++ fs, power - Int.ofNat fs.length⟩
      | _, _, _ => none
  | none =>
      match wholeDigits? front, power? with
      | some ds, some power =>
          if tail.isEmpty then none else some ⟨negative, ds, power⟩
      | _, _ => none

/--
A word for a number in 64 bits. A decimal that is too large for them must be
negative; it stands for the least number there is.
-/
def isFloat (cs : List Char) : Bool :=
  let (_, body) := splitSign cs
  body = ['i', 'n', 'f'] || body = ['n', 'a', 'n']
    || (float? cs).any fun d => !d.isTooLarge

/-- A number in exactly `n` digits. -/
def fixed? (n : Nat) (cs : List Char) : Option Nat :=
  if cs.length = n && cs.all Char.isDigit then
    some (numberOf 10 (cs.map fun c => c.toNat - 48))
  else
    none

/-- Number of days in a month. -/
def daysIn (year month : Nat) : Nat :=
  if month = 2 then
    if year % 4 = 0 ∧ (year % 100 ≠ 0 ∨ year % 400 = 0) then 29 else 28
  else if [4, 6, 9, 11].contains month then 30
  else 31

/-- A date such as `1979-05-27`. -/
def isDate (cs : List Char) : Bool :=
  match Text.fields '-' cs with
  | [y, m, d] =>
      match fixed? 4 y, fixed? 2 m, fixed? 2 d with
      | some year, some month, some day =>
          1 ≤ month && month ≤ 12 && 1 ≤ day && day ≤ daysIn year month
      | _, _, _ => false
  | _ => false

/-- A number in two digits with an upper limit. -/
def isBelow (limit : Nat) (cs : List Char) : Bool :=
  match fixed? 2 cs with
  | some n => n < limit
  | none => false

/-- A time such as `07:32:00.5`. -/
def isTime (cs : List Char) : Bool :=
  match Text.fields ':' cs with
  | [h, m, s] =>
      isBelow 24 h && isBelow 60 m && isBelow 61 (s.take 2)
        && (s.length = 2
          || match s.drop 2 with
            | '.' :: fraction => !fraction.isEmpty && fraction.all Char.isDigit
            | _ => false)
  | _ => false

/-- An offset from universal time: `Z`, or a sign with hours and minutes. -/
def isOffset (cs : List Char) : Bool :=
  match cs with
  | ['Z'] | ['z'] => true
  | c :: rest =>
      (c = '+' || c = '-')
        && match Text.fields ':' rest with
          | [h, m] => isBelow 24 h && isBelow 60 m
          | _ => false
  | [] => false

/-- A time with or without an offset. -/
def isTimeWithOffset (cs : List Char) : Bool :=
  let time := cs.takeWhile fun c => c.isDigit || c = ':' || c = '.'
  let offset := cs.dropWhile fun c => c.isDigit || c = ':' || c = '.'
  isTime time && (offset.isEmpty || isOffset offset)

/-- A date, a time, or a date and a time with `T` or a space between them. -/
def isMoment (cs : List Char) : Bool :=
  let date := cs.take 10
  isTime cs
    || (isDate date
      && match cs.drop 10 with
        | [] => true
        | c :: time =>
            (c = 'T' || c = 't' || c = ' ') && isTimeWithOffset time)

/-- A character of a word. -/
def isWordChar (c : Char) : Bool :=
  c.isAlphanum || ['_', '+', '-', '.', ':'].contains c

/-- The word in front of a text; the space inside a moment belongs to it. -/
def takeWord (cs : List Char) : List Char × List Char :=
  let word := cs.takeWhile isWordChar
  let rest := cs.dropWhile isWordChar
  match rest with
  | ' ' :: a :: more =>
      if isDate word && a.isDigit then
        (word ++ ' ' :: (a :: more).takeWhile isWordChar,
          (a :: more).dropWhile isWordChar)
      else
        (word, rest)
  | _ => (word, rest)

/-- The value of a word. -/
def wordValue? (word : List Char) : Option Value :=
  let text := String.ofList word
  if text = "true" then some (.boolean true)
  else if text = "false" then some (.boolean false)
  else
    match integer? word with
    | some n => some (.integer n)
    | none =>
        if isFloat word then some (.float text)
        else if isMoment word then some (.moment text)
        else none

end Toml
end NativeGlue
