import BusScript.Command.Framing

/-!
# Command Images

An `Image` holds the words of several scripts one after the other, so that an engine can fetch
them from a store with 16-bit addresses. Each script is a `Section` with a label, and its
**address** is the number of words before it, as far as 16 bits can hold it.
-/

namespace BusScript

/-- The words of one script, under a label. -/
structure Image.Section where
  label : String
  words : Array Command.Word
  deriving DecidableEq, Repr

/-- Scripts placed one after the other, in the order in which they were added. -/
structure Image where
  sections : Array Image.Section := #[]
  deriving DecidableEq, Repr

namespace Image

/-- The most words that an image holds: one for each 16-bit address. -/
def capacity : Nat := 65536

/-- The 16-bit address behind a number of words. What does not fit is cut off. -/
def truncate (words : Nat) : Nat := words % capacity

/-- A script that does not fit any more, and the number of words that an image with it would
need. -/
structure Overflow where
  needed : Nat
  deriving DecidableEq, Repr

/-- The wording of an overflow. -/
def Overflow.message (o : Overflow) : String :=
  "command image needs " ++ toString o.needed ++ " words, but the store holds at most "
    ++ toString capacity

/-- The number of words. -/
def size (image : Image) : Nat :=
  image.sections.foldl (fun total s => total + s.words.size) 0

/-- All words, from address 0 on. -/
def words (image : Image) : Array Command.Word :=
  image.sections.flatMap Section.words

/-- Adds a script at the end, if it fits, and gives its address. -/
def push (image : Image) (label : String) (script : Script) :
    Except Overflow (Nat × Image) :=
  let words := script.words.toArray
  let needed := image.size + words.size
  if needed ≤ capacity then
    .ok (truncate image.size, ⟨image.sections.push ⟨label, words⟩⟩)
  else .error ⟨needed⟩

/-- The sections behind a number of words, each with its own address. -/
def placed (before : Nat) : List Section → List (Nat × Section)
  | [] => []
  | s :: rest => (truncate before, s) :: placed (before + s.words.size) rest

/-- The sections with their addresses. -/
def placement (image : Image) : List (Nat × Section) :=
  placed 0 image.sections.toList

/-- The address of the first section with a label. -/
def addressOf? (image : Image) (label : String) : Option Nat :=
  (image.placement.find? fun entry => entry.2.label = label).map Prod.fst

/-- The label of the section that begins at an address. -/
def labelAt? (image : Image) (address : Nat) : Option String :=
  (image.placement.find? fun entry => entry.1 = address).map fun entry => entry.2.label

end Image

end BusScript
