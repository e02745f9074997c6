import BusScript.Image.Basic

/-!
# Memory Text

An image is handed to a hardware memory as text with one item per line: a comment with the
label of each section, the section's address behind `@`, and the words, in hexadecimal. `Line`
is such an item; `Image.text` writes an image, and `MemoryText.read?` reads such a text back as
the list of words it assigns to addresses.
-/

namespace BusScript

namespace MemoryText

/-- One line of memory text. -/
inductive Line where
  /-- A remark for the reader. -/
  | comment (text : List Char)
  /-- Where the following words go. -/
  | address (n : Nat)
  /-- A word for the current address, which then moves on by one. -/
  | word (w : Command.Word)
  deriving DecidableEq, Repr

/-- The characters of a line, without its end: at least four digits for an address, and for a word
at least fourteen, which is what its used bits take. -/
def Line.render : Line → List Char
  | comment text => '/' :: '/' :: text
  | address n => '@' :: Hex.digitsAtLeast 4 n
  | word w => Hex.digitsAtLeast 14 w.raw.toNat

/-- The item on a line: a comment, an address, or else a word. -/
def Line.read? : List Char → Option Line
  | '/' :: '/' :: text => some (comment text)
  | '@' :: digits => (Hex.read? digits).map address
  | digits => (Hex.read? digits).map fun n => word ⟨BitVec.ofNat 64 n⟩

/-- Lines as one text, each with its end. -/
def render (lines : List Line) : List Char :=
  lines.flatMap fun line => line.render ++ ['\n']

/-- The lines of a text. The last one may lack its end. -/
def splitLines : List Char → List (List Char)
  | [] => []
  | c :: cs =>
    if c = '\n' then [] :: splitLines cs
    else match splitLines cs with
      | [] => [[c]]
      | line :: lines => (c :: line) :: lines

/-- The words that lines assign to addresses, from the current address on. -/
def assignments (current : Nat) : List Line → List (Nat × Command.Word)
  | [] => []
  | .comment _ :: lines => assignments current lines
  | .address n :: lines => assignments n lines
  | .word w :: lines => (current, w) :: assignments (current + 1) lines

/-- Reads memory text as the words it assigns to addresses, in order. -/
def read? (text : List Char) : Option (List (Nat × Command.Word)) :=
  ((splitLines text).mapM Line.read?).map (assignments 0)

end MemoryText

namespace Image

/-- The lines of a section that begins at `address`. -/
def sectionLines (address : Nat) (s : Section) : List MemoryText.Line :=
  .comment (' ' :: s.label.toList) :: .address address :: s.words.toList.map .word

/-- The lines of an image. -/
def lines (image : Image) : List MemoryText.Line :=
  image.placement.flatMap fun (address, s) => sectionLines address s

/-- An image as memory text. -/
def text (image : Image) : String :=
  String.ofList (MemoryText.render image.lines)

end Image

end BusScript
