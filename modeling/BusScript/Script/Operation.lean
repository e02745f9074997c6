import BusScript.Script.Header

/-!
# Script Operations

An `Op` is one step of a script as its author sees it: values instead of counts and bytes.
`Op.header` and `Op.bytes` are its written form. Not every operation has one, since the fields
of a header are narrow; `Op.flaw?` says what stands in the way, and the operations without a
flaw (`Op.Valid`) are those that scripts are made of.
-/

namespace BusScript

/-- One operation of a script. -/
inductive Op where
  /-- Replaces one byte of a register. -/
  | set (target : RegisterByte) (value : Byte)
  /-- Reads an address until a bit has the awaited value. -/
  | poll (address : Byte) (bit : Nat) (untilSet : Bool)
  /-- Reads `count` values, from successive addresses if `increment` is set. -/
  | read (address : Byte) (width : Width) (count : Nat) (increment : Bool)
  /-- Writes values, to successive addresses if `increment` is set. -/
  | write (address : Byte) (width : Width) (data : List Value) (increment : Bool)
  deriving DecidableEq, Repr

/-- Why an operation cannot be part of a script. -/
inductive BuildError where
  | invalidTransferCount (count : Nat)
  | invalidPollBit (bit : Nat)
  | invalidAddressByte (index : Nat)
  | invalidRegisterByte (index : Nat)
  deriving DecidableEq, Repr

/-- The wording of a refusal. -/
def BuildError.message : BuildError → String
  | .invalidTransferCount count =>
    "a transfer must move between 1 and 8 values, but " ++ toString count ++ " were requested"
  | .invalidPollBit bit => "poll bit index must be below 32, but was " ++ toString bit
  | .invalidAddressByte index =>
    "address byte index must be 1, 2 or 3, but was " ++ toString index
  | .invalidRegisterByte index =>
    "register byte index must be below 4, but was " ++ toString index

namespace Op

/-- The most values that one transfer moves. -/
def maxCount : Nat := 8

/-- What is wrong with a transfer of `count` values. -/
def countFlaw? (count : Nat) : Option BuildError :=
  if 1 ≤ count ∧ count ≤ maxCount then none else some (.invalidTransferCount count)

/-- Why an operation has no written form, if it has none. -/
def flaw? : Op → Option BuildError
  | set ⟨.address, index⟩ _ =>
    if 1 ≤ index ∧ index < 4 then none else some (.invalidAddressByte index)
  | set ⟨_, index⟩ _ => if index < 4 then none else some (.invalidRegisterByte index)
  | poll _ bit _ => if bit < 32 then none else some (.invalidPollBit bit)
  | read _ _ count _ => countFlaw? count
  | write _ _ data _ => countFlaw? data.length

/-- An operation that can be part of a script. -/
abbrev Valid (op : Op) : Prop := op.flaw? = none

/-- The header of an operation. It counts the values of a write in a byte, which is enough for
every valid one. -/
def header : Op → Header
  | set target value => .set target value
  | poll address bit untilSet => .poll address bit untilSet
  | read address width count increment => .read address width count increment
  | write address width data increment => .write address width (data.length % 256) increment

/-- The data bytes that follow the header: each value in the bytes of its width, what does
not fit being dropped. -/
def payload : Op → List Byte
  | write _ width data _ => data.flatMap (LittleEndian.toBytes width.bytes)
  | _ => []

/-- The written form of an operation. -/
def bytes (op : Op) : List Byte :=
  let (opcode, operand) := op.header.encode
  opcode :: operand :: op.payload

/-- How many transactions an operation makes, if that does not depend on what a poll reads. -/
def transactions? : Op → Option Nat
  | set _ _ => some 0
  | poll _ _ _ => none
  | read _ _ count _ => some count
  | write _ _ data _ => some data.length

/-- The operation that leaves the same trace as this one: values cut to their width. -/
def masked : Op → Op
  | write address width data increment =>
    write address width (data.map (· &&& width.mask)) increment
  | op => op

end Op

end BusScript
