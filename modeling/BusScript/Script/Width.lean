import BusScript.Bytes

/-!
# Transfer Widths

A transfer moves values of 8, 16 or 32 bits. The width decides how many bytes of the script a
written value takes and how much of a read value is reported.
-/

namespace BusScript

/-- The width of the values of a transfer. -/
inductive Width where
  | byte
  | half
  | word
  deriving DecidableEq, Repr

namespace Width

/-- The code of a width in an operation header. -/
def code : Width → Nat
  | byte => 0
  | half => 1
  | word => 2

/-- The width with a given code; the last of the four codes is free. -/
def ofCode? : Nat → Option Width
  | 0 => some byte
  | 1 => some half
  | 2 => some word
  | _ => none

/-- The bytes of a value. -/
def bytes : Width → Nat
  | byte => 1
  | half => 2
  | word => 4

/-- The bits of a value. -/
def bits (w : Width) : Nat := 8 * w.bytes

/-- The width with a given number of bits. -/
def ofBits? : Nat → Option Width
  | 8 => some byte
  | 16 => some half
  | 32 => some word
  | _ => none

/-- The code of a width beside a reported value, where zero means that no value is reported. -/
def reportCode (w : Width) : Nat := w.code + 1

/-- The bits of a bus word that a value of this width occupies. -/
def mask (w : Width) : Value := (BitVec.allOnes w.bits).setWidth 32

@[simp] theorem ofCode?_code (w : Width) : ofCode? w.code = some w := by
  cases w <;> rfl

@[simp] theorem ofBits?_bits (w : Width) : ofBits? w.bits = some w := by
  cases w <;> rfl

/-- A code names a width only if it is that width's code. -/
theorem code_of_ofCode? {n : Nat} {w : Width} (h : ofCode? n = some w) : w.code = n := by
  unfold ofCode? at h
  split at h <;> simp_all [code] <;> subst h <;> rfl

theorem bytes_pos (w : Width) : 0 < w.bytes := by
  cases w <;> decide

theorem bytes_le_four (w : Width) : w.bytes ≤ 4 := by
  cases w <;> decide

end Width

end BusScript
