import BusScript.DecodeError
import BusScript.Script.Register
import BusScript.Script.Width

/-!
# Operation Headers

Every operation of a script begins with two bytes. The top two bits of the first, the
**opcode byte**, give the class of the operation; the second, the **operand**, is the value to
set for the class `set` and the low byte of the address for the other three.

| class | bits 7–6 | bits 5–0 of the opcode byte |
|---|---|---|
| `set` | 0 | register code (4 bits), byte index (2 bits) |
| `poll` | 1 | polarity (1 bit), bit index (5 bits) |
| `read` | 2 | increment (1 bit), values less one (3 bits), width code (2 bits) |
| `write` | 3 | as for `read` |

A write is followed by its data, `Header.payloadLength` bytes.
-/

namespace BusScript

/-- What the first two bytes of an operation say. -/
inductive Header where
  /-- Replaces one byte of a register. -/
  | set (target : RegisterByte) (value : Byte)
  /-- Reads an address until a bit has the awaited value. -/
  | poll (address : Byte) (bit : Nat) (untilSet : Bool)
  /-- Reads `count` values. -/
  | read (address : Byte) (width : Width) (count : Nat) (increment : Bool)
  /-- Writes `count` values. -/
  | write (address : Byte) (width : Width) (count : Nat) (increment : Bool)
  deriving DecidableEq, Repr

namespace Header

/-- The low six bits of the opcode byte of a transfer. -/
def transferFields (width : Width) (count : Nat) (increment : Bool) : BitVec 6 :=
  BitVec.ofBool increment ++ BitVec.ofNat 3 (count + 7) ++ BitVec.ofNat 2 width.code

/-- The opcode byte and the operand. Each number keeps only the bits that its field has. -/
def encode : Header → Byte × Byte
  | set target value =>
    (0#2 ++ BitVec.ofNat 4 target.register.code ++ BitVec.ofNat 2 target.index, value)
  | poll address bit untilSet =>
    (1#2 ++ BitVec.ofBool untilSet ++ BitVec.ofNat 5 bit, address)
  | read address width count increment =>
    (2#2 ++ transferFields width count increment, address)
  | write address width count increment =>
    (3#2 ++ transferFields width count increment, address)

/-- Reads the opcode byte and the operand of an operation. -/
def decode (opcode operand : Byte) : Except DecodeError Header :=
  let field (start length : Nat) : Nat := (opcode.extractLsb' start length).toNat
  let flag := opcode.getLsbD 5
  let transfer (make : Width → Nat → Bool → Header) : Except DecodeError Header :=
    match Width.ofCode? (field 0 2) with
    | none => .error (.malformedHeader opcode)
    | some width => .ok (make width (field 2 3 + 1) flag)
  match field 6 2 with
  | 0 =>
    match RegisterByte.ofCodes? (field 2 4) (field 0 2) with
    | none => .error (.malformedHeader opcode)
    | some target => .ok (set target operand)
  | 1 => .ok (poll operand (field 0 5) flag)
  | 2 => transfer (read operand)
  | _ => transfer (write operand)

/-- How many data bytes follow the header. -/
def payloadLength : Header → Nat
  | write _ width count _ => count * width.bytes
  | _ => 0

end Header

end BusScript
