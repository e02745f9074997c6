import BusScript.Bytes

/-!
# Registers of a Script

A running script has three 32-bit registers: the **address register**, whose upper three bytes
are the page that the operations address, the **poll delay** and the **poll count**. A script
sets them one byte at a time, so what it names is a `RegisterByte`.
-/

namespace BusScript

/-- The registers that a script can set. -/
inductive Register where
  | address
  | pollDelay
  | pollCount
  deriving DecidableEq, Repr

/-- One byte of a register, byte 0 being the lowest. -/
structure RegisterByte where
  register : Register
  index : Nat
  deriving DecidableEq, Repr

namespace Register

/-- The code of a register in an operation header. -/
def code : Register → Nat
  | address => 0
  | pollDelay => 2
  | pollCount => 3

/-- The register with a given code. -/
def ofCode? : Nat → Option Register
  | 0 => some address
  | 2 => some pollDelay
  | 3 => some pollCount
  | _ => none

@[simp] theorem ofCode?_code (r : Register) : ofCode? r.code = some r := by
  cases r <;> rfl

/-- A code names a register only if it is that register's code. -/
theorem code_of_ofCode? {n : Nat} {r : Register} (h : ofCode? n = some r) : r.code = n := by
  unfold ofCode? at h
  split at h <;> simp_all [code] <;> subst h <;> rfl

end Register

namespace RegisterByte

/-- The register byte with given codes. The lowest byte of the address register belongs to
each operation and cannot be set. -/
def ofCodes? (register index : Nat) : Option RegisterByte :=
  match Register.ofCode? register with
  | none => none
  | some r => if r = .address ∧ index = 0 then none else some ⟨r, index⟩

/-- How far up the byte stands in its register, in bits. A register has four bytes, so the
index counts modulo four. -/
def shift (b : RegisterByte) : Nat := 8 * (b.index % 4)

/-- The four bytes of a register, lowest first. -/
def all (r : Register) : List RegisterByte :=
  (List.range 4).map (RegisterByte.mk r)

end RegisterByte

end BusScript
