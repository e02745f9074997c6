import BusScript.Json.Numeral
import BusScript.Text.Hex

/-!
# JSON Tokens

The lexer reads a document one character at a time. What it remembers between two characters
is a `Mode`: nothing, or the part of a word, a numeral or a string that it is in. Blanks are
space, tab, line feed and carriage return, and nothing else.
-/

namespace BusScript.Json

/-- A token of a document. -/
inductive Token where
  | openArray
  | closeArray
  | openObject
  | closeObject
  | colon
  | comma
  | null
  | bool (b : Bool)
  | numeral (n : Numeral)
  | string (s : String)
  deriving DecidableEq, Repr

/-- What the lexer is in the middle of. Characters are kept last one first. Inside a string,
`high` is the first half of a surrogate pair whose second half must follow at once. -/
inductive Mode where
  | between
  | word (chars : List Char)
  | numeral (chars : List Char)
  | string (chars : List Char) (high : Option Nat)
  /-- Behind a backslash. -/
  | escape (chars : List Char) (high : Option Nat)
  /-- In a four-digit escape, with some digits still to come. -/
  | codeUnit (chars : List Char) (high : Option Nat) (missing : Nat) (value : Nat)
  deriving DecidableEq, Repr

/-- The lexer between two characters. -/
structure Lexer where
  mode : Mode := .between
  tokens : Array Token := #[]

namespace Lexer

/-- Goes on in another mode. -/
def enter (l : Lexer) (mode : Mode) : Lexer := { l with mode }

/-- Adds a token. -/
def emit (l : Lexer) (t : Token) : Lexer := ⟨.between, l.tokens.push t⟩

/-- Ends the word or numeral that the lexer is in. A string cannot be ended like that. -/
def flush? (l : Lexer) : Option Lexer :=
  match l.mode with
  | .between => some l
  | .word chars =>
    match String.ofList chars.reverse with
    | "null" => some (l.emit .null)
    | "true" => some (l.emit (.bool true))
    | "false" => some (l.emit (.bool false))
    | _ => none
  | .numeral chars => (Numeral.read? chars.reverse).map fun n => l.emit (.numeral n)
  | _ => none

/-- Whether a character can stand in a word. -/
def isWordChar (c : Char) : Bool := c.isLower

/-- Whether a character can stand in a numeral. -/
def isNumeralChar (c : Char) : Bool :=
  c.isDigit || c == '-' || c == '+' || c == '.' || c == 'e' || c == 'E'

/-- Reads a character between two tokens. -/
def stepBetween (l : Lexer) (c : Char) : Option Lexer :=
  if c = ' ' ∨ c = '\t' ∨ c = '\n' ∨ c = '\r' then some l
  else if c = '[' then some (l.emit .openArray)
  else if c = ']' then some (l.emit .closeArray)
  else if c = '\x7b' then some (l.emit .openObject)
  else if c = '\x7d' then some (l.emit .closeObject)
  else if c = ':' then some (l.emit .colon)
  else if c = ',' then some (l.emit .comma)
  else if c = '"' then some (l.enter (.string [] none))
  else if c = '-' ∨ c.isDigit then some (l.enter (.numeral [c]))
  else if isWordChar c then some (l.enter (.word [c]))
  else none

/-- Reads a character of a string. Control characters have to be escaped. -/
def stepString (l : Lexer) (chars : List Char) (high : Option Nat) (c : Char) : Option Lexer :=
  if c = '\\' then some (l.enter (.escape chars high))
  else if high.isSome then none
  else if c = '"' then some (l.emit (.string (String.ofList chars.reverse)))
  else if c.toNat < 0x20 then none
  else some (l.enter (.string (c :: chars) none))

/-- The character that an escape of one letter stands for. -/
def escaped? : Char → Option Char
  | '"' => some '"'
  | '\\' => some '\\'
  | '/' => some '/'
  | 'b' => some '\x08'
  | 'f' => some '\x0c'
  | 'n' => some '\n'
  | 'r' => some '\r'
  | 't' => some '\t'
  | _ => none

/-- Reads the character behind a backslash. -/
def stepEscape (l : Lexer) (chars : List Char) (high : Option Nat) (c : Char) : Option Lexer :=
  if c = 'u' then some (l.enter (.codeUnit chars high 4 0))
  else if high.isSome then none
  else (escaped? c).map fun e => l.enter (.string (e :: chars) none)

/-- Goes on behind a four-digit escape. The two halves of a surrogate pair stand for one
character, and neither may stand alone. -/
def finishCodeUnit (l : Lexer) (chars : List Char) (high : Option Nat) (unit : Nat) :
    Option Lexer :=
  let isHigh := 0xD800 ≤ unit && unit < 0xDC00
  let isLow := 0xDC00 ≤ unit && unit < 0xE000
  match high with
  | none =>
    if isHigh then some (l.enter (.string chars (some unit)))
    else if isLow then none
    else some (l.enter (.string (Char.ofNat unit :: chars) none))
  | some first =>
    if isLow then
      let c := Char.ofNat (0x10000 + (first - 0xD800) * 0x400 + (unit - 0xDC00))
      some (l.enter (.string (c :: chars) none))
    else none

/-- Reads one character. -/
def step (l : Lexer) (c : Char) : Option Lexer :=
  match l.mode with
  | .between => l.stepBetween c
  | .word chars =>
    if isWordChar c then some (l.enter (.word (c :: chars)))
    else do (← l.flush?).stepBetween c
  | .numeral chars =>
    if isNumeralChar c then some (l.enter (.numeral (c :: chars)))
    else do (← l.flush?).stepBetween c
  | .string chars high => l.stepString chars high c
  | .escape chars high => l.stepEscape chars high c
  | .codeUnit chars high missing value => do
    let value := 16 * value + (← Hex.digitValue? c)
    if missing ≤ 1 then l.finishCodeUnit chars high value
    else return l.enter (.codeUnit chars high (missing - 1) value)

end Lexer

/-- The tokens of a document. -/
def tokens? (text : List Char) : Option (List Token) := do
  let l ← text.foldlM Lexer.step {}
  return (← l.flush?).tokens.toList

end BusScript.Json
