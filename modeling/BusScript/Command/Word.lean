import BusScript.Command.Payload

/-!
# Commands and Command Words

The engine is fed **commands**, one per 64-bit **command word**:

| bits | field |
|---|---|
| 0–47 | data, the first byte lowest |
| 48–50 | how many data bytes are valid |
| 51–53 | opcode |
| 54–63 | reserved |

`Command.pack` writes a word and `Word.decode` reads one. A client that has had some bytes of
a data word accepted shifts them out with `Word.consume`.

## Main results

* `Word.opcode_ofFields`, `Word.count_ofFields`, `Word.data_ofFields` — the fields of a word
  are those it was made of.
-/

namespace BusScript

/-- What a command word asks for. -/
inductive Command where
  /-- Nothing. -/
  | idle
  /-- Begins a script; with `clear` the registers are first set to their defaults. -/
  | start (clear : Bool)
  /-- Bytes of the script, the last ones if `last` is set. -/
  | data (payload : Command.Payload) (last : Bool)
  deriving DecidableEq, Repr

namespace Command

/-- The kinds of command. -/
inductive Opcode where
  | idle
  | start
  | startClear
  | data
  | dataLast
  deriving DecidableEq, Repr

namespace Opcode

/-- The number of an opcode. -/
def code : Opcode → Nat
  | idle => 0
  | start => 1
  | startClear => 2
  | data => 3
  | dataLast => 4

/-- The opcode with a given number. -/
def ofCode? (bits : Byte) : Except DecodeError Opcode :=
  match bits.toNat with
  | 0 => .ok idle
  | 1 => .ok start
  | 2 => .ok startClear
  | 3 => .ok data
  | 4 => .ok dataLast
  | _ => .error (.malformedOpcode bits)

/-- Whether commands of this kind carry bytes. -/
def isData : Opcode → Bool
  | data | dataLast => true
  | _ => false

end Opcode

/-- The kind of a command. -/
def opcode : Command → Opcode
  | idle => .idle
  | start false => .start
  | start true => .startClear
  | data _ false => .data
  | data _ true => .dataLast

/-- The bytes that a command carries, if it is of a kind that carries any. -/
def payload? : Command → Option Payload
  | data payload _ => some payload
  | _ => none

/-- A command word. -/
structure Word where
  raw : BitVec 64
  deriving DecidableEq, Repr

namespace Word

/-- The opcode field. -/
def opcode (w : Word) : BitVec 3 := w.raw.extractLsb' 51 3

/-- The field that says how many data bytes are valid. -/
def count (w : Word) : BitVec 3 := w.raw.extractLsb' 48 3

/-- The data field. -/
def data (w : Word) : BitVec 48 := w.raw.extractLsb' 0 48

/-- The word with given fields and nothing in its reserved bits. -/
def ofFields (opcode count : BitVec 3) (data : BitVec 48) : Word :=
  ⟨0#10 ++ opcode ++ count ++ data⟩

@[simp] theorem opcode_ofFields (opcode count : BitVec 3) (data : BitVec 48) :
    (ofFields opcode count data).opcode = opcode := by
  apply BitVec.eq_of_getLsbD_eq
  intro i hi
  have h₁ : ¬ 51 + i < 48 := by omega
  have h₂ : ¬ 51 + i - 48 < 3 := by omega
  have h₃ : 51 + i - 48 - 3 = i := by omega
  simp only [ofFields, Word.opcode, BitVec.getLsbD_extractLsb', BitVec.getLsbD_append,
    h₁, h₂, h₃, hi]
  simp

@[simp] theorem count_ofFields (opcode count : BitVec 3) (data : BitVec 48) :
    (ofFields opcode count data).count = count := by
  apply BitVec.eq_of_getLsbD_eq
  intro i hi
  have h₁ : ¬ 48 + i < 48 := by omega
  have h₂ : 48 + i - 48 = i := by omega
  simp only [ofFields, Word.count, BitVec.getLsbD_extractLsb', BitVec.getLsbD_append, h₁, h₂, hi]
  simp

@[simp] theorem data_ofFields (opcode count : BitVec 3) (data : BitVec 48) :
    (ofFields opcode count data).data = data := by
  apply BitVec.eq_of_getLsbD_eq
  intro i hi
  simp only [ofFields, Word.data, BitVec.getLsbD_extractLsb', BitVec.getLsbD_append,
    Nat.zero_add, hi]
  simp

/-- The word that asks for nothing. -/
def idle : Word := ofFields 0 0 0

/-- Whether the opcode field says that the word carries bytes. -/
def isData (w : Word) : Bool :=
  w.opcode.toNat == Opcode.data.code || w.opcode.toNat == Opcode.dataLast.code

/-- Whether the opcode field says that the word carries the last bytes of its script. -/
def isDataLast (w : Word) : Bool :=
  w.opcode.toNat == Opcode.dataLast.code

/-- The payload of a word that carries bytes. -/
def payload? (w : Word) : Except DecodeError Payload :=
  if h : w.count.toNat ≤ payloadCapacity then
    .ok ⟨LittleEndian.toBytes w.count.toNat w.data, by simpa using h⟩
  else .error (.invalidByteCount (w.count.setWidth 8))

/-- Reads a word. The opcode is looked at first, and the count only for the opcodes that have
a payload; the reserved bits and the data bytes beyond the count are ignored. -/
def decode (w : Word) : Except DecodeError Command :=
  match Opcode.ofCode? (w.opcode.setWidth 8) with
  | .error e => .error e
  | .ok .idle => .ok .idle
  | .ok .start => .ok (.start false)
  | .ok .startClear => .ok (.start true)
  | .ok .data => w.payload?.map (.data · false)
  | .ok .dataLast => w.payload?.map (.data · true)

/-- The word that is left when the first `n` data bytes have been accepted. -/
def consume (w : Word) (n : Nat) : Word :=
  ofFields w.opcode (BitVec.ofNat 3 (w.count.toNat - n)) (w.data >>> (8 * n))

/-- The text of a word, for diagnostics. -/
def text (w : Word) : String :=
  "CommandWord(0x" ++ Hex.textAtLeast 14 w.raw.toNat ++ ")"

end Word

/-- The word of a command. -/
def pack (c : Command) : Word :=
  let bytes := (c.payload?.getD .empty).bytes
  .ofFields (BitVec.ofNat 3 c.opcode.code) (BitVec.ofNat 3 bytes.length)
    (LittleEndian.ofBytes 48 bytes)

end Command

end BusScript
