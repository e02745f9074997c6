import BusScript.Engine.Registers
import BusScript.Script.Header

/-!
# Operations in Progress

What an engine keeps while it executes an operation that takes transactions. A transfer counts
down the values that are still to be moved and carries the address of the next one; a poll
counts its attempts up to a budget fixed at its beginning, and waits between them.
-/

namespace BusScript

/-- A read or write operation in progress. -/
structure Transfer where
  /-- The address of the next transaction. -/
  address : Address
  width : Width
  /-- The transactions that have not been begun. -/
  remaining : Nat
  increment : Bool
  deriving DecidableEq, Repr

/-- The transfer after its next transaction has been begun. -/
def Transfer.next (t : Transfer) (stride : Value) : Transfer :=
  { t with
    remaining := t.remaining - 1
    address := if t.increment then t.address + stride else t.address }

/-- A poll in progress. -/
structure Poll where
  address : Address
  bit : Nat
  untilSet : Bool
  /-- The attempts begun so far. -/
  attempts : Nat
  /-- The attempts after which the poll gives up. -/
  budget : Nat
  /-- The cycles to wait before the next attempt. -/
  delay : Nat
  deriving DecidableEq, Repr

/-- Whether a poll that has read `value` is over. -/
def Poll.isSatisfied (p : Poll) (value : Value) : Bool :=
  value.getLsbD p.bit == p.untilSet

/-- An operation in progress. -/
inductive Activity where
  | read (t : Transfer)
  | write (t : Transfer)
  | poll (p : Poll)
  deriving DecidableEq, Repr

namespace Activity

/-- The script bytes that the operation still has to take. -/
def bytesNeeded : Activity → Nat
  | write t => t.remaining * t.width.bytes
  | _ => 0

/-- The beginning of an operation. Setting a register is done at once and has no progress. -/
def ofHeader? (registers : Registers) : Header → Option Activity
  | .set _ _ => none
  | .poll address bit untilSet =>
    some (poll ⟨registers.address address, bit, untilSet, 0, registers.pollBudget, 0⟩)
  | .read address width count increment =>
    some (read ⟨registers.address address, width, count, increment⟩)
  | .write address width count increment =>
    some (write ⟨registers.address address, width, count, increment⟩)

end Activity

end BusScript
