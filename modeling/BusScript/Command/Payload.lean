import BusScript.DecodeError

/-!
# Payloads

A command word has room for six bytes of a script; the bytes that it does carry are its
`Payload`.
-/

namespace BusScript.Command

/-- The most bytes that one command word carries. -/
def payloadCapacity : Nat := 6

/-- The bytes of a script that one command word carries. -/
structure Payload where
  bytes : List Byte
  length_le : bytes.length ≤ payloadCapacity
  deriving DecidableEq, Repr

namespace Payload

/-- The payload without bytes. -/
def empty : Payload := ⟨[], Nat.zero_le _⟩

instance : Inhabited Payload := ⟨empty⟩

/-- How many bytes there are. -/
def length (p : Payload) : Nat := p.bytes.length

/-- Makes a payload of bytes that fit. The length of bytes that do not is reported in eight
bits. -/
def ofBytes? (bytes : List Byte) : Except DecodeError Payload :=
  if h : bytes.length ≤ payloadCapacity then .ok ⟨bytes, h⟩
  else .error (.invalidByteCount (BitVec.ofNat 8 bytes.length))

/-- The first bytes of a list, as many as fit. -/
def take (bytes : List Byte) : Payload :=
  ⟨bytes.take payloadCapacity, List.length_take_le _ _⟩

/-- The bytes as a list of numbers. -/
def text (p : Payload) : String :=
  "[" ++ ", ".intercalate (p.bytes.map fun b => toString b.toNat) ++ "]"

@[ext] theorem ext {p q : Payload} (h : p.bytes = q.bytes) : p = q := by
  cases p
  cases q
  simp_all

end Payload

end BusScript.Command
