import BusScript.Shell.Perform

/-!
# The Command Line Program

The console of the operating system, and the entry point of the program.
-/

namespace BusScript.Shell

instance : Console IO where
  readFile path := do
    match ← (IO.FS.readBinFile path).toBaseIO with
    | .ok bytes => return some bytes
    | .error _ => return none
  writeFile path text := do
    match ← (IO.FS.writeFile path text).toBaseIO with
    | .ok _ => return true
    | .error _ => return false
  print text := do
    let out ← IO.getStdout
    out.putStr text
  millis := IO.monoMsNow

/-- How the program is called. -/
def usage : String :=
  "Usage: bus-script run [OPTIONS] <SCRIPT_FILE>\n"
    ++ "       bus-script assemble [-o <OUTPUT_FILE>] <SCRIPT_FILES>..."

/-- The line that tells what is wrong with the arguments, if anything is. -/
def UsageError.message? : UsageError → Option String
  | noArguments | help | version => none
  | unknownCommand name => some ("unrecognized subcommand '" ++ name ++ "'")
  | missingFile => some "no script file was given"
  | unknownArgument text => some ("unexpected argument '" ++ text ++ "'")
  | invalidValue option value => some ("invalid value '" ++ value ++ "' for " ++ option)
  | invalidNumber option value => some ("invalid value '" ++ value ++ "' for " ++ option)
  | repeatedOption option => some (option ++ " was given more than once")
  | unexpectedValue option => some (option ++ " takes no value")

end BusScript.Shell

open BusScript.Shell in
/-- Reads the arguments, does what they ask for, and says what went wrong. -/
def main (arguments : List String) : IO UInt32 := do
  match Action.read arguments with
  | .error e =>
    match e.message? with
    | some message =>
      IO.eprintln ("error: " ++ message)
      IO.eprintln usage
      return 2
    | none =>
      IO.println usage
      return if e = .noArguments then 2 else 0
  | .ok action =>
    match ← (action.perform : ExceptT Failure IO Unit).run with
    | .ok _ => return 0
    | .error failure =>
      IO.eprintln ("Error: " ++ failure.message)
      for cause in failure.causes do
        IO.eprintln ("  caused by: " ++ cause)
      return 1
