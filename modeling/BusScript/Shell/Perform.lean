import BusScript.Image.MemoryText
import BusScript.Run.Stored
import BusScript.Run.Stream
import BusScript.ScriptFile
import BusScript.Shell.Action
import BusScript.Shell.Console

/-!
# Doing What the Command Line Asks For

`Action.perform` carries an action out on any console. What goes wrong is a `Failure`; its
message names the step that failed and its causes, outermost first, say why.
-/

namespace BusScript.Shell

/-- Why an action failed. -/
inductive Failure where
  | unreadable (path : String)
  | malformed (path : String)
  | badWidth (index bits : Nat)
  | badOperation (index : Nat) (error : BuildError)
  | badOptions (error : OptionsError)
  | tooLong (overflow : Image.Overflow)
  | misplaced (path : String) (overflow : Image.Overflow)
  | unfinished (error : Run.LimitError)
  | unsuccessful (verdict : Verdict) (error : Option RunError)
  | unwritable (path : String)
  deriving DecidableEq, Repr

namespace Failure

/-- A path as messages show it. -/
def quoted (path : String) : String := "`" ++ path ++ "`"

/-- The step that failed. -/
def message : Failure → String
  | unreadable path => "Failed to read script file " ++ quoted path
  | malformed path => "Failed to parse script file " ++ quoted path
  | badWidth index bits =>
    "Invalid operation " ++ toString index ++ ": width must be 8, 16 or 32, but was "
      ++ toString bits
  | badOperation index _ => "Invalid operation " ++ toString index
  | badOptions _ => "Invalid engine options"
  | tooLong overflow => overflow.message
  | misplaced path _ => "Failed to place " ++ quoted path
  | unfinished _ => "Failed to run script"
  | unsuccessful verdict error =>
    "script " ++ verdict.text ++ ": " ++ (error.map RunError.message).getD ""
  | unwritable path => "Failed to write image to " ++ quoted path

/-- Why it failed, as far as the message does not say. -/
def causes : Failure → List String
  | badOperation _ error => [error.message]
  | badOptions error => [error.message]
  | misplaced _ overflow => [overflow.message]
  | unfinished error => [error.message]
  | _ => []

end Failure

section

variable {m : Type → Type} [Monad m] [Console m]

/-- Reads a script file. Bytes that are no text count as unreadable. -/
def readScriptFile (path : String) : ExceptT Failure m ScriptFile := do
  match (← (Console.readFile path : m _)).bind String.fromUTF8? with
  | none => throw (.unreadable path)
  | some text =>
    match ScriptFile.read? text with
    | none => throw (.malformed path)
    | some file => return file

/-- The script of a script file. -/
def scriptOf (file : ScriptFile) : Except Failure Script :=
  match file.script with
  | .ok script => .ok script
  | .error (index, .width bits) => .error (.badWidth index bits)
  | .error (index, .refused error) => .error (.badOperation index error)

/-- Runs a script as the settings say. -/
def execute (s : RunSettings) (options : Options) (target : Bus.Memory) (script : Script) :
    Except Failure Run.Summary := do
  let (result, _) ← match s.source with
    | .stream => pure (runScript options target script s.idleGap)
    | .store =>
      match ({} : Image).push "script" script with
      | .error overflow => throw (.tooLong overflow)
      | .ok (address, image) =>
        pure (runStored options (.ofWords image.words s.latency) target (BitVec.ofNat 16 address))
  match result with
  | .error e => throw (.unfinished e)
  | .ok summary => return summary

/-- The options that settings give. -/
def engineOptions (s : RunSettings) : Except Failure Options :=
  match Options.make? (BitVec.ofNat 32 s.pollCount) (BitVec.ofNat 32 s.pollDelay)
      (BitVec.ofNat 32 s.stride) s.maxCycles with
  | .error e => .error (.badOptions e)
  | .ok options => .ok options

/-- The lines that report a finished run. -/
def summaryLines (s : Run.Summary) : List String :=
  ["Status: " ++ s.verdict.text, "Cycles: " ++ toString s.cycles,
    "Transactions: " ++ toString s.transactions]
    ++ s.results.toList.mapIdx fun i r => "Read " ++ toString i ++ ": " ++ r.text

/-- Runs a script file. -/
def performRun (s : RunSettings) : ExceptT Failure m Unit := do
  let printed (line : String) : ExceptT Failure m Unit := (printLine line : m Unit)
  printed (String.ofList (List.replicate 79 '='))
  printed ("Run script: " ++ s.file)
  printed (String.ofList (List.replicate 79 '-'))
  let file ← readScriptFile s.file
  let script ← liftExcept (scriptOf file)
  let options ← liftExcept (engineOptions s)
  let before ← (Console.millis : m Nat)
  let summary ← liftExcept (execute s options (file.target s.waitStates) script)
  (summaryLines summary).forM printed
  let after ← (Console.millis : m Nat)
  printed ("Executed in " ++ toString (after - before) ++ " ms")
  if summary.verdict = .completed then return
  throw (.unsuccessful summary.verdict summary.error)
where
  /-- A failure of a pure step ends the action. -/
  liftExcept {α : Type} : Except Failure α → ExceptT Failure m α
    | .ok a => pure a
    | .error e => throw e

/-- Adds script files to an image. -/
def assembleFiles (image : Image) : List String → ExceptT Failure m Image
  | [] => return image
  | path :: rest => do
    let file ← readScriptFile path
    match scriptOf file with
    | .error e => throw e
    | .ok script =>
      match image.push (fileStem path) script with
      | .error overflow => throw (.misplaced path overflow)
      | .ok (_, image) => assembleFiles image rest

/-- Assembles script files into an image, which is written or printed. -/
def performAssemble (files : List String) (output : Option String) :
    ExceptT Failure m Unit := do
  let image ← assembleFiles {} files
  match output with
  | none => (Console.print image.text : m Unit)
  | some path =>
    if ← (Console.writeFile path image.text : m Bool) then
      (printLine ("Assembled " ++ toString files.length ++ " scripts (" ++ toString image.size
        ++ " words) into " ++ path) : m Unit)
    else throw (.unwritable path)

/-- Carries an action out. -/
def Action.perform : Action → ExceptT Failure m Unit
  | .run settings => performRun settings
  | .assemble files output => performAssemble files output

end

end BusScript.Shell
