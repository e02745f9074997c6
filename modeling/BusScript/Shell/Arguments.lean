/-!
# Command Line Arguments

The grammar of a subcommand is data: its options, each of which takes one value, and whether it
takes one file or several. `Grammar.read` scans a list of arguments by that grammar, from left
to right.

An option is written `--name value`, `--name=value`, `-n value`, `-nvalue` or `-n=value`; all
other arguments are files, and so is everything behind `--`. A value that stands apart is
checked when the scan comes to the next argument that means something, so what is wrong with
that argument's name is reported first.
-/

namespace BusScript.Shell

/-- What is wrong with the arguments, or why they ask for no work. -/
inductive UsageError where
  | noArguments
  | help
  | version
  | unknownCommand (name : String)
  | missingFile
  | unknownArgument (text : String)
  /-- A value that is none of those allowed, or missing. -/
  | invalidValue (option value : String)
  /-- A value that is no number in range. -/
  | invalidNumber (option value : String)
  | repeatedOption (option : String)
  /-- A value given to an option that takes none. -/
  | unexpectedValue (option : String)
  deriving DecidableEq, Repr

/-- What values an option takes. -/
inductive ValueKind where
  | path
  /-- A natural number up to a bound. -/
  | number (bound : Nat)
  | choice (names : List String)
  deriving DecidableEq, Repr

/-- An option. -/
structure Flag where
  name : String
  letter : Option Char := none
  kind : ValueKind
  deriving DecidableEq, Repr

/-- What arguments a subcommand takes. -/
structure Grammar where
  flags : List Flag
  /-- Whether several files can be given. -/
  manyFiles : Bool
  deriving DecidableEq, Repr

/-- Reads a decimal number with an optional sign, if it is at least zero and within a bound. -/
def readNumber? (bound : Nat) (text : String) : Option Nat :=
  let (negative, digits) := match text.toList with
    | '-' :: digits => (true, digits)
    | '+' :: digits => (false, digits)
    | digits => (false, digits)
  if digits.isEmpty || !digits.all Char.isDigit then none
  else
    let n := digits.foldl (fun n c => 10 * n + (c.toNat - 48)) 0
    if n ≤ bound ∧ (negative → n = 0) then some n else none

/-- Checks a value. -/
def ValueKind.check (kind : ValueKind) (option value : String) : Except UsageError Unit :=
  match kind with
  | path => if value.isEmpty then .error (.invalidValue option value) else .ok ()
  | number bound =>
    if (readNumber? bound value).isSome then .ok () else .error (.invalidNumber option value)
  | choice names =>
    if names.contains value then .ok () else .error (.invalidValue option value)

/-- What a scan has found: checked values under the names of their options, latest first, and
checked files in order. -/
structure Given where
  values : List (String × String) := []
  files : List String := []
  deriving DecidableEq, Repr

/-- The value of an option, if it was given. -/
def Given.value? (g : Given) (name : String) : Option String :=
  g.values.lookup name

/-- Something seen and not yet checked. -/
inductive Pending where
  | nothing
  | flag (f : Flag) (value : Option String)
  | files (paths : List String)
  deriving DecidableEq, Repr

/-- A scan between two arguments. -/
structure Scan where
  given : Given := {}
  pending : Pending := .nothing
  /-- Whether `--` has been seen. -/
  filesOnly : Bool := false
  deriving DecidableEq, Repr

namespace Scan

/-- Checks the value of an option and keeps it. -/
def record (s : Scan) (f : Flag) (value : String) : Except UsageError Scan :=
  if (s.given.value? f.name).isSome then .error (.repeatedOption f.name)
  else do
    f.kind.check f.name value
    return { s with given := { s.given with values := (f.name, value) :: s.given.values } }

/-- Checks what is pending. -/
def settle (s : Scan) : Except UsageError Scan :=
  match s.pending with
  | .nothing => .ok s
  | .flag f none => .error (.invalidValue f.name "")
  | .flag f (some value) => { s with pending := .nothing }.record f value
  | .files paths => do
    paths.forM (ValueKind.path.check "file")
    return { s with
      pending := .nothing
      given := { s.given with files := s.given.files ++ paths } }

/-- Takes an option, with its value if that is joined to it. -/
def flag (s : Scan) (f : Flag) (value : Option String) : Except UsageError Scan := do
  let s ← s.settle
  match value with
  | none => return { s with pending := .flag f none }
  | some value => s.record f value

/-- Takes a file. -/
def file (s : Scan) (g : Grammar) (path : String) : Except UsageError Scan :=
  match s.pending with
  | .files paths =>
    if g.manyFiles then .ok { s with pending := .files (paths ++ [path]) }
    else .error (.unknownArgument path)
  | _ =>
    if !g.manyFiles && !s.given.files.isEmpty then .error (.unknownArgument path)
    else do return { ← s.settle with pending := .files [path] }

/-- Takes the request for help. -/
def help (s : Scan) : Except UsageError Scan := do
  let _ ← s.settle
  throw .help

/-- Takes an argument that begins with two dashes. -/
def long (s : Scan) (g : Grammar) (text : String) : Except UsageError Scan :=
  let chars := text.toList.drop 2
  let name := String.ofList (chars.takeWhile (· ≠ '='))
  let value := match chars.dropWhile (· ≠ '=') with
    | [] => none
    | _ :: value => some (String.ofList value)
  if name = "help" then
    if value.isSome then .error (.unexpectedValue name) else s.help
  else match g.flags.find? fun f => f.name = name with
    | none => .error (.unknownArgument text)
    | some f => s.flag f value

/-- Takes an argument that begins with one dash, `letter` being the character behind it. -/
def short (s : Scan) (g : Grammar) (letter : Char) (rest : List Char) :
    Except UsageError Scan :=
  if letter = 'h' then s.help
  else match g.flags.find? fun f => f.letter = some letter with
    | none => .error (.unknownArgument (String.ofList ('-' :: letter :: rest)))
    | some f =>
      match rest with
      | [] => s.flag f none
      | '=' :: value => s.flag f (some (String.ofList value))
      | value => s.flag f (some (String.ofList value))

/-- Takes one argument. -/
def step (g : Grammar) (s : Scan) (text : String) : Except UsageError Scan :=
  if s.filesOnly then s.file g text
  else match text.toList with
    | ['-', '-'] => .ok { s with filesOnly := true }
    | '-' :: '-' :: _ => s.long g text
    | '-' :: letter :: rest => s.short g letter rest
    | _ =>
      match s.pending with
      | .flag f none => .ok { s with pending := .flag f (some text) }
      | _ => s.file g text

end Scan

/-- Reads the arguments of a subcommand, which needs one file at least. -/
def Grammar.read (g : Grammar) (arguments : List String) : Except UsageError Given := do
  let s ← arguments.foldlM (Scan.step g) {}
  let s ← s.settle
  if s.given.files.isEmpty then throw .missingFile
  return s.given

end BusScript.Shell
