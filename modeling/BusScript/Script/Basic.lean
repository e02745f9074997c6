import BusScript.Script.Operation

/-!
# Scripts

A `Script` is a list of valid operations, in the order in which they run. Scripts are built
from the empty one by **calls**: a call appends the operations it stands for
(`Script.Call.ops`), or is refused and appends nothing.

Registers are set one byte at a time, so selecting a page of addresses takes three operations
and setting a poll register four.
-/

namespace BusScript

/-- A list of operations, all of which have a written form. -/
structure Script where
  ops : Array Op
  valid : ∀ op ∈ ops, op.Valid

namespace Script

/-- The script without operations. -/
def empty : Script := ⟨#[], by simp⟩

instance : Inhabited Script := ⟨empty⟩

/-- Whether there are no operations. -/
def isEmpty (s : Script) : Bool := s.ops.isEmpty

/-- Appends operations that have a written form. -/
def append (s : Script) (ops : List Op) (h : ∀ op ∈ ops, op.Valid) : Script :=
  ⟨s.ops ++ ops, fun op hop => by
    rcases List.mem_append.1 (by simpa [← Array.mem_toList_iff] using hop) with hop | hop
    · exact s.valid op (Array.mem_toList_iff.1 hop)
    · exact h op hop⟩

@[simp] theorem toList_ops_append (s : Script) (ops : List Op) (h : ∀ op ∈ ops, op.Valid) :
    (s.append ops h).ops.toList = s.ops.toList ++ ops := by
  simp [append]

/-- The bytes of a script: those of its operations, one after the other. -/
def bytes (s : Script) : List Byte :=
  s.ops.toList.flatMap Op.bytes

/-- How many transactions a script makes, if it does not poll. -/
def transactionCount? (s : Script) : Option Nat :=
  (s.ops.toList.mapM Op.transactions?).map (List.foldl Nat.add 0)

/-! ### Building -/

/-- One request to a script under construction. -/
inductive Call where
  /-- Lets the following operations address the page of 256 addresses around `address`. -/
  | select (address : Address)
  /-- Sets the number of cycles between two attempts of a poll. -/
  | setPollDelay (cycles : Value)
  /-- Sets the number of attempts after which a poll gives up. -/
  | setPollCount (attempts : Value)
  /-- Appends one operation. -/
  | push (op : Op)
  deriving DecidableEq, Repr

/-- The operation that sets one byte of a register to that byte of a value. -/
def setByte (value : Value) (target : RegisterByte) : Op :=
  .set target ((value >>> target.shift).setWidth 8)

namespace Call

/-- The operations that a call stands for. The lowest byte of an address is not among the
bytes of the page. -/
def ops : Call → List Op
  | select address => (RegisterByte.all .address).tail.map (setByte address)
  | setPollDelay cycles => (RegisterByte.all .pollDelay).map (setByte cycles)
  | setPollCount attempts => (RegisterByte.all .pollCount).map (setByte attempts)
  | push op => [op]

/-- Why a call is refused, if it is. -/
def flaw? : Call → Option BuildError
  | push op => op.flaw?
  | _ => none

/-- A call that is not refused stands for operations that have a written form. -/
theorem valid_of_flaw? {c : Call} (h : c.flaw? = none) : ∀ op ∈ c.ops, op.Valid := by
  cases c with
  | push op =>
    intro op' hop
    obtain rfl : op' = op := by simpa [ops] using hop
    exact h
  | _ => simp [ops, RegisterByte.all, List.range, List.range.loop, setByte, Op.Valid, Op.flaw?]

end Call

/-- Carries out calls from the first to the last or to the first that is refused, and says
what was refused. The operations appended before a refusal stay. -/
def extend (s : Script) : List Call → Script × Option BuildError
  | [] => (s, none)
  | c :: calls =>
    match h : c.flaw? with
    | some e => (s, some e)
    | none => (s.append c.ops (Call.valid_of_flaw? h)).extend calls

end Script

end BusScript
