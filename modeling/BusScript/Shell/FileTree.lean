/-!
# Paths and File Trees

The command line names files by relative paths. A `FileTree` is a working directory held in
memory: files by the list of names that leads to them, and the directories that these lists
imply. A path is walked from the working directory, and every directory on the way has to
exist, even one that the path leaves again with `..`.
-/

namespace BusScript.Shell

/-- The parts of a path, empty ones included. -/
def pathParts (path : String) : List String := path.splitOn "/"

/-- The name of the file at the end of a path, without its last extension. A name that only
begins with a point has no extension. -/
def fileStem (path : String) : String :=
  match ((pathParts path).filter fun part => part ≠ "" ∧ part ≠ ".").getLast? with
  | none | some ".." => ""
  | some name =>
    let parts := name.splitOn "."
    let stem := ".".intercalate parts.dropLast
    if stem = "" then name else stem

/-- A working directory. -/
structure FileTree where
  /-- The files, by the names that lead to them; of two for one list of names the first counts. -/
  files : List (List String × ByteArray) := []

namespace FileTree

/-- Whether there is a directory at the end of a list of names. -/
def isDirectory (t : FileTree) (names : List String) : Bool :=
  names.isEmpty || t.files.any fun f => names.isPrefixOf f.1 && f.1 != names

/-- Walks down directories from the one that `names` leads to. -/
def walk? (t : FileTree) (names : List String) : List String → Option (List String)
  | [] => some names
  | part :: rest =>
    if part = "" ∨ part = "." then t.walk? names rest
    else if part = ".." then
      if names.isEmpty then none else t.walk? names.dropLast rest
    else
      let names := names ++ [part]
      if t.isDirectory names then t.walk? names rest else none

/-- The list of names of the file that a path stands for, whether or not there is one. A path
that ends like a directory stands for no file. -/
def locate? (t : FileTree) (path : String) : Option (List String) := do
  let parts := pathParts path
  let name ← parts.getLast?
  if name = "" ∨ name = "." ∨ name = ".." then none
  else return (← t.walk? [] parts.dropLast) ++ [name]

/-- The contents of a file. -/
def read? (t : FileTree) (path : String) : Option ByteArray := do
  let names ← t.locate? path
  (t.files.find? fun f => f.1 = names).map Prod.snd

/-- Writes a file, over an existing one if need be. Its directory has to exist. -/
def write? (t : FileTree) (path : String) (contents : ByteArray) : Option FileTree := do
  let names ← t.locate? path
  if t.isDirectory names then none
  else return ⟨(names, contents) :: t.files⟩

/-- Adds a file together with the directories that lead to it. -/
def add (t : FileTree) (path : String) (contents : ByteArray) : FileTree :=
  ⟨((pathParts path).filter fun part => part ≠ "" ∧ part ≠ ".", contents) :: t.files⟩

end FileTree

end BusScript.Shell
