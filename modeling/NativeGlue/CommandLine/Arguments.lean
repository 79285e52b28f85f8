import NativeGlue.CommandLine.Grammar
import NativeGlue.Config.Read

/-!
# Commands

The command line names a command, `generate` or `scan`, with options that take
the place of settings in the configuration file.
-/

namespace NativeGlue
namespace CommandLine

/-- Where classes come from. -/
structure InputOptions where
  /-- The path of the configuration file. -/
  config : Option String
  classpath : List String
  marker : Option Marker
deriving DecidableEq, Repr, Inhabited

/-- Where and how output is written. -/
structure OutputOptions where
  outputDir : Option String
  naming : Option NamingScheme
  strict : Bool
  report : Option String
deriving DecidableEq, Repr, Inhabited

/-- What the command line asks for. -/
inductive Command where
  | generate (input : InputOptions) (output : OutputOptions)
  | scan (input : InputOptions)
  | version
deriving DecidableEq, Repr, Inhabited

/-- The option for more messages, which every command has. -/
def verboseSpec : OptionSpec :=
  { name := "verbose", letter := some 'v', takesValue := false,
    repeats := true }

/-- The options of both commands. -/
def inputSpecs : List OptionSpec :=
  [verboseSpec, { name := "config", letter := some 'c' },
    { name := "classpath", repeats := true }, { name := "marker" }]

/-- The options of `generate`. -/
def generateSpecs : List OptionSpec :=
  inputSpecs
    ++ [{ name := "output", letter := some 'o' }, { name := "naming" },
      { name := "strict", takesValue := false }, { name := "report" }]

/-- The value of an option, if it was given, as something that it must be. -/
def readOption {α : Type} (given : List Given) (name : String)
    (read : String → Option α) : Option (Option α) :=
  match valueOf? given name with
  | none => some none
  | some value => (read value).map some

/-- A path, which is not empty. -/
def path? (value : String) : Option String :=
  if value = "" then none else some value

/-- The options of both commands among those given. -/
def inputOf? (given : List Given) : Option InputOptions := do
  let config ← readOption given "config" path?
  let classpath ← (valuesOf given "classpath").mapM path?
  let marker ← readOption given "marker" Marker.parse
  return { config, classpath, marker }

/-- The options of `generate` among those given. -/
def outputOf? (given : List Given) : Option OutputOptions := do
  let outputDir ← readOption given "output" path?
  let naming ← readOption given "naming" NamingScheme.ofName?
  let report ← readOption given "report" path?
  return { outputDir, naming, strict := (valueOf? given "strict").isSome,
           report }

/-- The command that some words name, with its options. -/
def command? (name : String) (rest : List String) : Option Command :=
  if name = "generate" then do
    let given ← options? generateSpecs rest
    let input ← inputOf? given
    let output ← outputOf? given
    return .generate input output
  else if name = "scan" then do
    let given ← options? inputSpecs rest
    let input ← inputOf? given
    return .scan input
  else
    none

/-- Whether letters in front of a command ask for the version. -/
def asksVersion? : List Char → Option Bool
  | [] => some false
  | 'v' :: cs => asksVersion? cs
  | 'V' :: _ => some true
  | _ => none

/--
Reads a command line. The version is shown as soon as it is asked for,
whatever follows.
-/
def parse : List String → Option Command
  | [] => none
  | word :: rest =>
      if word = "--version" then some .version
      else if word = "--verbose" then parse rest
      else
        match word.toList with
        | '-' :: c :: cs =>
            match asksVersion? (c :: cs) with
            | some true => some .version
            | some false => parse rest
            | none => none
        | _ => command? word rest

end CommandLine
end NativeGlue
