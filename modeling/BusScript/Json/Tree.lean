import BusScript.Json.Token

/-!
# JSON Trees

A document as a tree. The members of an object are kept as written, in order and with any
repetition: what a repeated name means is for the reader of a record to say.

Trees are built from tokens with a stack of unfinished arrays and objects, so reading a
document is one pass over its tokens. The stack has at most `Builder.maxDepth` entries; a
document nested deeper is refused.
-/

namespace BusScript.Json

/-- A document. -/
inductive Tree where
  | null
  | bool (b : Bool)
  | numeral (n : Numeral)
  | string (s : String)
  | array (items : List Tree)
  | object (members : List (String × Tree))

/-- An unfinished array or object; its parts are kept last one first. -/
inductive Frame where
  | array (items : List Tree)
  /-- The name is that of the member whose value is being read. -/
  | object (members : List (String × Tree)) (name : String)

/-- What may come next. -/
inductive Expected where
  | value
  | valueOrClose
  | name
  | nameOrClose
  | colon
  | commaOrClose
  /-- Nothing: the document is complete. -/
  | nothing (t : Tree)

/-- A document in the making. -/
structure Builder where
  stack : List Frame := []
  expected : Expected := .value

namespace Builder

/-- How deep arrays and objects may be nested. -/
def maxDepth : Nat := 127

/-- Puts a finished value where it belongs. -/
def place (t : Tree) : List Frame → Builder
  | [] => ⟨[], .nothing t⟩
  | .array items :: stack => ⟨.array (t :: items) :: stack, .commaOrClose⟩
  | .object members name :: stack => ⟨.object ((name, t) :: members) "" :: stack, .commaOrClose⟩

/-- Begins an array or object. -/
def nest? (b : Builder) (frame : Frame) (expected : Expected) : Option Builder :=
  if b.stack.length < maxDepth then some ⟨frame :: b.stack, expected⟩ else none

/-- Begins or completes a value. -/
def value? (b : Builder) : Token → Option Builder
  | .null => some (place .null b.stack)
  | .bool v => some (place (.bool v) b.stack)
  | .numeral n => some (place (.numeral n) b.stack)
  | .string s => some (place (.string s) b.stack)
  | .openArray => b.nest? (.array []) .valueOrClose
  | .openObject => b.nest? (.object [] "") .nameOrClose
  | _ => none

/-- Takes the name of a member. -/
def name? (b : Builder) (name : String) : Option Builder :=
  match b.stack with
  | .object members _ :: stack => some ⟨.object members name :: stack, .colon⟩
  | _ => none

/-- Ends the innermost array or object. -/
def close? (b : Builder) : Token → Option Builder
  | .closeArray =>
    match b.stack with
    | .array items :: stack => some (place (.array items.reverse) stack)
    | _ => none
  | .closeObject =>
    match b.stack with
    | .object members _ :: stack => some (place (.object members.reverse) stack)
    | _ => none
  | _ => none

/-- Goes on behind a comma. -/
def next (b : Builder) : Builder :=
  match b.stack with
  | .object _ _ :: _ => { b with expected := .name }
  | _ => { b with expected := .value }

/-- Takes one token. -/
def step (b : Builder) (t : Token) : Option Builder :=
  match b.expected, t with
  | .value, t => b.value? t
  | .valueOrClose, .closeArray => b.close? .closeArray
  | .valueOrClose, t => b.value? t
  | .name, .string s => b.name? s
  | .nameOrClose, .string s => b.name? s
  | .nameOrClose, .closeObject => b.close? .closeObject
  | .colon, .colon => some { b with expected := .value }
  | .commaOrClose, .comma => some b.next
  | .commaOrClose, t => b.close? t
  | _, _ => none

end Builder

/-- Reads a document: one value, and nothing but blanks around it. -/
def Tree.read? (text : List Char) : Option Tree := do
  let b ← (← tokens? text).foldlM Builder.step {}
  match b.expected with
  | .nothing t => some t
  | _ => none

/-! ### Looking into a tree -/

namespace Tree

/-- A natural number of at most `w` bits. -/
def bits? (w : Nat) : Tree → Option (BitVec w)
  | numeral (.natural n) =>
    let value := BitVec.ofNat w n
    if value.toNat = n then some value else none
  | _ => none

/-- A truth value. -/
def bool? : Tree → Option Bool
  | bool b => some b
  | _ => none

/-- A string. -/
def string? : Tree → Option String
  | string s => some s
  | _ => none

/-- The items of an array, each read alike. -/
def list? {α : Type} (item? : Tree → Option α) : Tree → Option (List α)
  | array items => items.mapM item?
  | _ => none

/-- The value of a named member, unless the name is repeated; `some none` if it is absent. -/
def member? (members : List (String × Tree)) (name : String) : Option (Option Tree) :=
  match members.filter fun m => m.1 = name with
  | [] => some none
  | [m] => some (some m.2)
  | _ => none

/-- The values of the named members of an object, none of which may be repeated. -/
def named? (names : List String) (members : List (String × Tree)) :
    Option (List (Option Tree)) :=
  names.mapM (member? members)

/-- The values that an array gives to names by their position; the last ones may be absent. -/
def positional? (names : List String) (items : List Tree) : Option (List (Option Tree)) :=
  if items.length ≤ names.length then
    some (items.map some ++ List.replicate (names.length - items.length) none)
  else none

/-- The fields of a record, which is an object with no other members or an array. -/
def fields? (names : List String) : Tree → Option (List (Option Tree))
  | object members =>
    if members.all fun m => names.contains m.1 then named? names members else none
  | array items => positional? names items
  | _ => none

end Tree

end BusScript.Json
