import BusScript.Shell.FileTree

/-!
# Consoles

The work of the command line is written against a `Console`, which is all that it sees of the
world: files to read and write, a place to print to, and a clock. `Session` is a console that
lives in memory.
-/

namespace BusScript.Shell

/-- What the command line needs of the world. -/
class Console (m : Type → Type) where
  /-- The contents of a file, if it can be read. -/
  readFile : String → m (Option ByteArray)
  /-- Writes a file, and tells whether that was possible. -/
  writeFile : String → String → m Bool
  /-- Prints text as it is. -/
  print : String → m Unit
  /-- The time in milliseconds. -/
  millis : m Nat

/-- Prints a line. -/
def printLine {m : Type → Type} [Console m] (line : String) : m Unit :=
  Console.print (line ++ "\n")

/-- A console in memory, on which no time passes. -/
structure Session where
  files : FileTree
  /-- Everything printed. -/
  output : String := ""

instance : Console (StateM Session) where
  readFile path := return (← get).files.read? path
  writeFile path text := do
    let s ← get
    match s.files.write? path text.toUTF8 with
    | none => return false
    | some files =>
      set { s with files }
      return true
  print text := modify fun s => { s with output := s.output ++ text }
  millis := pure 0

end BusScript.Shell
