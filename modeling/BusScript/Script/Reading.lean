import BusScript.Script.Basic

/-!
# Reading Operations from Bytes

The written form of operations is read back one operation at a time: two header bytes, then as
many data bytes as the header asks for (`Op.readAll`). What stops the reading short of the end
is a `Leftover`: a header that names no operation, or an operation whose bytes run out.
-/

namespace BusScript

/-- What is left of the bytes once no further operation can be read. -/
inductive Leftover where
  /-- Nothing: the bytes are complete operations. -/
  | nothing
  /-- The next two bytes are no header. -/
  | malformed (error : DecodeError)
  /-- The bytes of the next operation run out. -/
  | incomplete
  deriving DecidableEq, Repr

namespace Op

/-- Cuts bytes into `count` little-endian values of `width` bytes. -/
def values (width : Nat) : Nat → List Byte → List Value
  | 0, _ => []
  | count + 1, bytes =>
    LittleEndian.ofBytes 32 (bytes.take width) :: values width count (bytes.drop width)

/-- The operation with a given header and data bytes. -/
def ofHeader (header : Header) (payload : List Byte) : Op :=
  match header with
  | .set target value => .set target value
  | .poll address bit untilSet => .poll address bit untilSet
  | .read address width count increment => .read address width count increment
  | .write address width count increment =>
    .write address width (values width.bytes count payload) increment

/-- Reads as many operations as the bytes hold, and says what is left. -/
def readAll (bytes : List Byte) : List Op × Leftover :=
  match bytes with
  | [] => ([], .nothing)
  | [_] => ([], .incomplete)
  | opcode :: operand :: rest =>
    match Header.decode opcode operand with
    | .error e => ([], .malformed e)
    | .ok header =>
      if rest.length < header.payloadLength then ([], .incomplete)
      else
        let (ops, left) := readAll (rest.drop header.payloadLength)
        (ofHeader header (rest.take header.payloadLength) :: ops, left)
termination_by bytes.length
decreasing_by
  simp only [List.length_drop, List.length_cons]
  omega

/-- Reads bytes that are complete operations. -/
def readAll? (bytes : List Byte) : Option (List Op) :=
  match readAll bytes with
  | (ops, .nothing) => some ops
  | _ => none

end Op

end BusScript
