import BusScript.Engine.Options
import BusScript.Script.Register

/-!
# The Register File

The three registers of a running script. The address register has no lowest byte of its own:
an operation supplies it, and `Registers.address` forms the full address.
-/

namespace BusScript

/-- The contents of the registers. -/
structure Registers where
  /-- The page that operations address, in its upper three bytes. -/
  page : Value
  pollDelay : Value
  pollCount : Value
  deriving DecidableEq, Repr

namespace Registers

/-- The registers after a clearing start. -/
def initial (options : Options) : Registers :=
  ⟨0, options.pollDelay, options.pollCount⟩

/-- A value with the byte `shift` bits up replaced. -/
def replaceByte (value : Value) (shift : Nat) (b : Byte) : Value :=
  (value &&& ~~~(0xff#32 <<< shift)) ||| b.setWidth 32 <<< shift

/-- Replaces one byte of one register. -/
def set (r : Registers) (target : RegisterByte) (b : Byte) : Registers :=
  match target.register with
  | .address => { r with page := replaceByte r.page target.shift b }
  | .pollDelay => { r with pollDelay := replaceByte r.pollDelay target.shift b }
  | .pollCount => { r with pollCount := replaceByte r.pollCount target.shift b }

/-- The address that an operation with the low byte `low` begins at. -/
def address (r : Registers) (low : Byte) : Address :=
  r.page.extractLsb' 8 24 ++ low

/-- How many attempts a poll has: always one at least. -/
def pollBudget (r : Registers) : Nat := max r.pollCount.toNat 1

end Registers

end BusScript
