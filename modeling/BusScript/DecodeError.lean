import BusScript.Bytes
import BusScript.Text.Hex

/-!
# Decoding Errors

Why a command word or an operation header cannot be read.
-/

namespace BusScript

/-- What is wrong with an undecodable command word or operation header. -/
inductive DecodeError where
  /-- The opcode field of a command word names no command. -/
  | malformedOpcode (bits : Byte)
  /-- A payload is declared longer than a command word can carry. -/
  | invalidByteCount (count : Byte)
  /-- The first byte of an operation names no operation. -/
  | malformedHeader (opcode : Byte)
  deriving DecidableEq, Repr

/-- The wording of a decoding error. -/
def DecodeError.message : DecodeError → String
  | .malformedOpcode bits => "command word carries malformed opcode " ++ toString bits.toNat
  | .invalidByteCount count =>
    "command word declares " ++ toString count.toNat
      ++ " valid data bytes, but at most 6 are allowed"
  | .malformedHeader opcode =>
    "script operation header 0x" ++ Hex.text 2 opcode.toNat ++ " is malformed"

end BusScript
