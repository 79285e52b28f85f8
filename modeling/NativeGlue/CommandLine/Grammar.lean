import NativeGlue.Text.Basic

/-!
# Words of the command line

Options have a long name and perhaps a letter. A value follows its option as
the next word, after `=`, or right after the letter; letters of options
without values may share one hyphen.
-/

namespace NativeGlue
namespace CommandLine

/-- An option that a command has. -/
structure OptionSpec where
  name : String
  letter : Option Char := none
  takesValue : Bool := true
  /-- Whether the option may be given more than once. -/
  repeats : Bool := false
deriving DecidableEq, Repr, Inhabited

/-- An option that was given, with its value if it takes one. -/
structure Given where
  name : String
  value : String := ""
deriving DecidableEq, Repr, Inhabited

/-- Options that were given, and the words after them. -/
abbrev Reading := List Given × List String

/-- Whether a word is an option; a lone hyphen is not. -/
def isOption (word : String) : Bool :=
  match word.toList with
  | '-' :: _ :: _ => true
  | _ => false

/-- An option whose value is the next word. -/
def withNextWord (name : String) : List String → Option Reading
  | [] => none
  | word :: rest =>
      if isOption word then none else some ([⟨name, word⟩], rest)

/-- Reads letters after a hyphen. -/
def readLetters (specs : List OptionSpec) (rest : List String) :
    List Char → Option Reading
  | [] => some ([], rest)
  | c :: cs =>
      match specs.find? fun s => s.letter = some c with
      | none => none
      | some spec =>
          if spec.takesValue then
            match cs with
            | [] => withNextWord spec.name rest
            | '=' :: value => some ([⟨spec.name, String.ofList value⟩], rest)
            | value => some ([⟨spec.name, String.ofList value⟩], rest)
          else
            (readLetters specs rest cs).map fun (given, rest) =>
              (⟨spec.name, ""⟩ :: given, rest)

/-- Reads a long name after two hyphens. -/
def readName (specs : List OptionSpec) (rest : List String)
    (cs : List Char) : Option Reading :=
  let (name, value?) :=
    match Text.splitFirst? '=' cs with
    | some (name, value) => (String.ofList name, some (String.ofList value))
    | none => (String.ofList cs, none)
  match specs.find? fun s => s.name = name, value? with
  | none, _ => none
  | some spec, some value =>
      if spec.takesValue then some ([⟨name, value⟩], rest) else none
  | some spec, none =>
      if spec.takesValue then withNextWord name rest
      else some ([⟨name, ""⟩], rest)

/-- Reads the options that one word starts. -/
def readWord (specs : List OptionSpec) (word : String) (rest : List String) :
    Option Reading :=
  match word.toList with
  | ['-', '-'] => if rest.isEmpty then some ([], []) else none
  | '-' :: '-' :: cs => readName specs rest cs
  | '-' :: c :: cs => readLetters specs rest (c :: cs)
  | _ => none

/-- Reads options up to the last word. -/
def readAll (specs : List OptionSpec) : Nat → List String → Option (List Given)
  | _, [] => some []
  | 0, _ :: _ => none
  | n + 1, word :: rest =>
      match readWord specs word rest with
      | none => none
      | some (given, rest) =>
          (readAll specs n rest).map fun others => given ++ others

/-- Whether an option that does not repeat was given twice. -/
def hasRepeat (specs : List OptionSpec) (given : List Given) : Bool :=
  specs.any fun s =>
    !s.repeats && 1 < (given.filter fun g => g.name = s.name).length

/-- The options among some words, of which there must be nothing else. -/
def options? (specs : List OptionSpec) (words : List String) :
    Option (List Given) :=
  (readAll specs words.length words).filter fun given =>
    !hasRepeat specs given

/-- The value of an option that was given. -/
def valueOf? (given : List Given) (name : String) : Option String :=
  (given.find? fun g => g.name = name).map Given.value

/-- The values of an option that was given. -/
def valuesOf (given : List Given) (name : String) : List String :=
  (given.filter fun g => g.name = name).map Given.value

end CommandLine
end NativeGlue
