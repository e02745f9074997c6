import BusScript.Engine.Options
import BusScript.Shell.Arguments

/-!
# What the Command Line Asks For

There are two subcommands: `run` runs one script file, and `assemble` places script files in a
command image. `Action.read` reads the arguments that follow the name of the program.
-/

namespace BusScript.Shell

/-- How a script reaches the engine. -/
inductive Source where
  | stream
  | store
  deriving DecidableEq, Repr

/-- The settings of `run`. -/
structure RunSettings where
  file : String
  source : Source
  pollCount : Nat
  pollDelay : Nat
  stride : Nat
  waitStates : Nat
  latency : Nat
  idleGap : Nat
  maxCycles : Nat
  deriving DecidableEq, Repr

/-- What the command line asks for. -/
inductive Action where
  | run (settings : RunSettings)
  | assemble (files : List String) (output : Option String)
  deriving DecidableEq, Repr

namespace Action

/-- The values of a 32-bit number. -/
def word : ValueKind := .number 0xffffffff

/-- The arguments of `run`. -/
def runGrammar : Grammar where
  manyFiles := false
  flags := [
    { name := "front-end", letter := 'f', kind := .choice ["stream", "store"] },
    { name := "poll-count", kind := word },
    { name := "poll-delay", kind := word },
    { name := "address-stride", kind := word },
    { name := "wait-states", letter := 'w', kind := word },
    { name := "store-latency", kind := .number 0xff },
    { name := "idle-gap", kind := word },
    { name := "max-cycles", letter := 'm', kind := word }]

/-- The arguments of `assemble`. -/
def assembleGrammar : Grammar where
  manyFiles := true
  flags := [{ name := "output", letter := 'o', kind := .path }]

/-- The number given to an option, or its default. -/
def number (g : Given) (name : String) (default : Nat) : Nat :=
  ((g.value? name).bind (readNumber? 0xffffffff)).getD default

/-- The settings that the arguments of `run` give. -/
def runSettings (g : Given) : RunSettings where
  file := g.files.headD ""
  source := if g.value? "front-end" = some "store" then .store else .stream
  pollCount := number g "poll-count" 1024
  pollDelay := number g "poll-delay" 0
  stride := number g "address-stride" 1
  waitStates := number g "wait-states" 0
  latency := number g "store-latency" 0
  idleGap := number g "idle-gap" 0
  maxCycles := number g "max-cycles" Options.defaultMaxCycles

/-- The names that can stand first. -/
def commandNames : List String := ["run", "assemble", "help"]

/-- What follows the word `help`: at most one name. -/
def readHelp : List String → UsageError
  | [] => .help
  | name :: rest =>
    if commandNames.contains name then
      match rest with
      | [] => .help
      | extra :: _ => .unknownCommand extra
    else .unknownCommand name

/-- What is wrong when the first argument is no subcommand. -/
def readOther (text : String) (rest : List String) : UsageError :=
  match text.toList with
  | ['-', '-'] =>
    match rest with
    | [] => .noArguments
    | name :: _ =>
      if commandNames.contains name then .unknownArgument name else .unknownCommand name
  | '-' :: '-' :: _ =>
    if text = "--help" then .help
    else if text = "--version" then .version
    else if text.startsWith "--help=" then .unexpectedValue "help"
    else if text.startsWith "--version=" then .unexpectedValue "version"
    else .unknownArgument text
  | '-' :: letter :: _ =>
    if letter = 'h' then .help
    else if letter = 'V' then .version
    else .unknownArgument text
  | _ => .unknownCommand text

/-- Reads the arguments of the program. -/
def read : List String → Except UsageError Action
  | [] => .error .noArguments
  | "run" :: rest => do return run (runSettings (← runGrammar.read rest))
  | "assemble" :: rest => do
    let g ← assembleGrammar.read rest
    return assemble g.files (g.value? "output")
  | "help" :: rest => .error (readHelp rest)
  | text :: rest => .error (readOther text rest)

end Action

end BusScript.Shell
