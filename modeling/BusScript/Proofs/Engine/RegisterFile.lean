import BusScript.Engine.Registers
import BusScript.Semantics

/-!
# Registers Byte by Byte

A script sets its registers one byte at a time. Seen through its bytes (`Registers.byte`), setting
is plain: one byte of one register is replaced, and every other byte is what it was
(`Registers.byte_set`).

A value is therefore loaded into a register by setting each of its bytes, whatever the register held
before. The address register is loaded without its lowest byte, which the operations supply
themselves.

The bytes make up the table that the meaning of scripts is stated with (`Registers.table`): setting,
addressing and counting the attempts of a poll are the same on both.

## Main results

* `Registers.byte_set` — what setting a byte does to every byte of the registers.
* `Registers.table_set`, `Registers.address_table`, `Registers.pollBudget_table` — registers and
  their tables agree.
* `Registers.holds_after_load` — the operations that load a register leave the value in it.
* `Registers.Holds.after` — operations that set other registers leave it there.
-/

namespace BusScript

/-- The call that loads a register. -/
def Register.load : Register → Value → Script.Call
  | .address, value => .select value
  | .pollDelay, value => .setPollDelay value
  | .pollCount, value => .setPollCount value

/-- The bytes of a register that a script can set. -/
def Register.settable : Register → List RegisterByte
  | .address => (RegisterByte.all .address).tail
  | register => RegisterByte.all register

/-- All bytes of a register can be set but the lowest one of the address register. -/
theorem Register.mem_settable {register : Register} {i : Nat} (hi : i < 4)
    (h : register = .address → i ≠ 0) : ⟨register, i⟩ ∈ register.settable := by
  cases register with
  | address =>
      have hupper : i = 1 ∨ i = 2 ∨ i = 3 := by
        have hne := h rfl
        omega
      rcases hupper with rfl | rfl | rfl <;> decide
  | pollDelay | pollCount => exact List.mem_map.mpr ⟨i, List.mem_range.mpr hi, rfl⟩

namespace Registers

/-- The contents of one register. -/
def get (r : Registers) : Register → Value
  | .address => r.page
  | .pollDelay => r.pollDelay
  | .pollCount => r.pollCount

/-- One byte of the registers. -/
def byte (r : Registers) (b : RegisterByte) : Byte :=
  (r.get b.register >>> b.shift).setWidth 8

/-- The registers after an operation. Only operations that set a byte change them. -/
def afterOp (r : Registers) : Op → Registers
  | .set target value => r.set target value
  | _ => r

/-- The registers after some operations. -/
def after (r : Registers) (ops : List Op) : Registers := ops.foldl afterOp r

/-- A register holds a value, as far as operations make use of it: of the address register that is
the page, without the lowest byte. -/
def Holds (r : Registers) (register : Register) (value : Value) : Prop :=
  match register with
  | .address => r.page.extractLsb' 8 24 = value.extractLsb' 8 24
  | .pollDelay => r.pollDelay = value
  | .pollCount => r.pollCount = value

/-! ### Setting a byte -/

/-- The bits of a value with one byte replaced. -/
theorem getLsbD_replaceByte (value : Value) (shift : Nat) (b : Byte) {i : Nat} (hi : i < 32) :
    (replaceByte value shift b).getLsbD i =
      if shift ≤ i ∧ i < shift + 8 then b.getLsbD (i - shift) else value.getLsbD i := by
  have hmask : (0xff#32).getLsbD (i - shift) = decide (i - shift < 8) := by
    rw [show (0xff#32) = (BitVec.allOnes 8).setWidth 32 from rfl, BitVec.getLsbD_setWidth,
      BitVec.getLsbD_allOnes]
    have hlt : i - shift < 32 := by omega
    simp [hlt]
  have hlt : i - shift < 32 := by omega
  simp only [replaceByte, BitVec.getLsbD_or, BitVec.getLsbD_and, BitVec.getLsbD_not,
    BitVec.getLsbD_shiftLeft, BitVec.getLsbD_setWidth, hmask, hi, hlt, decide_true, Bool.true_and]
  by_cases hlow : i < shift
  · rw [if_neg (by omega)]
    simp [hlow]
  · by_cases hhigh : i - shift < 8
    · rw [if_pos (by omega)]
      simp [hlow, hhigh]
    · have hnone : b.getLsbD (i - shift) = false := BitVec.getLsbD_of_ge b _ (by omega)
      rw [if_neg (by omega)]
      simp [hlow, hhigh, hnone]

/-- The bytes of a value with one byte replaced. -/
theorem byte_replaceByte (value : Value) (b : Byte) {i j : Nat} (hi : i < 4) :
    (replaceByte value (8 * j) b >>> (8 * i)).setWidth 8 =
      if i = j then b else (value >>> (8 * i)).setWidth 8 := by
  apply BitVec.eq_of_getLsbD_eq
  intro k hk
  have hlt : 8 * i + k < 32 := by omega
  rw [BitVec.getLsbD_setWidth, BitVec.getLsbD_ushiftRight, getLsbD_replaceByte _ _ _ hlt]
  by_cases hij : i = j
  · subst hij
    rw [if_pos (by omega), if_pos rfl]
    simp [hk]
  · rw [if_neg (by omega), if_neg hij]
    simp [hk]

/-- The contents of every register after one byte has been set. -/
theorem get_set (r : Registers) (target : RegisterByte) (b : Byte) (register : Register) :
    (r.set target b).get register =
      if register = target.register then replaceByte (r.get register) target.shift b
      else r.get register := by
  obtain ⟨register', index⟩ := target
  cases register' <;> cases register <;> rfl

/-- **Setting a byte replaces that byte**, and no other byte of the same or of another register. -/
theorem byte_set (r : Registers) {target b : RegisterByte} (ht : target.index < 4)
    (hb : b.index < 4) (value : Byte) :
    (r.set target value).byte b = if b = target then value else r.byte b := by
  obtain ⟨register, index⟩ := b
  obtain ⟨register', index'⟩ := target
  have hshift : ∀ x : RegisterByte, x.index < 4 → x.shift = 8 * x.index := by
    intro x hx
    rw [RegisterByte.shift, Nat.mod_eq_of_lt hx]
  rw [byte, byte, get_set, hshift _ hb, hshift _ ht]
  dsimp only
  by_cases hregister : register = register'
  · subst hregister
    rw [if_pos rfl, byte_replaceByte _ _ hb]
    simp
  · rw [if_neg hregister, if_neg fun h => hregister (congrArg RegisterByte.register h)]

/-! ### The table of bytes -/

/-- The registers as a table of bytes. -/
def table (r : Registers) : RegisterTable := fun register i => r.byte ⟨register, i.val⟩

/-- The byte in a row of the table. -/
theorem table_apply (r : Registers) (register : Register) (i : Fin 4) :
    r.table register i = (r.get register >>> (8 * i.val)).setWidth 8 := by
  rw [table, byte, RegisterByte.shift, Nat.mod_eq_of_lt i.isLt]

/-- A clearing start leaves the table that a script begins with. -/
theorem table_initial (options : Options) :
    (initial options).table = RegisterTable.initial options := by
  funext register i
  rw [table_apply]
  cases register with
  | address => simp [get, initial, RegisterTable.initial]
  | pollDelay | pollCount => rfl

/-- **Setting a byte sets it in the table.** -/
theorem table_set (r : Registers) (target : RegisterByte) (b : Byte) :
    (r.set target b).table = r.table.set target b := by
  obtain ⟨register', index⟩ := target
  have hindex : index % 4 < 4 := Nat.mod_lt _ (by decide)
  have hsame : r.set ⟨register', index⟩ b = r.set ⟨register', index % 4⟩ b := by
    simp only [set, RegisterByte.shift, Nat.mod_mod]
  funext register i
  rw [hsame, table, byte_set r hindex i.isLt, RegisterTable.set]
  simp only [RegisterByte.mk.injEq]
  rfl

/-- A bit of a register is found in its byte. -/
theorem getLsbD_table (r : Registers) (register : Register) (i : Fin 4) {k : Nat} (hk : k < 8) :
    (r.table register i).getLsbD k = (r.get register).getLsbD (8 * i.val + k) := by
  rw [table_apply, BitVec.getLsbD_setWidth, BitVec.getLsbD_ushiftRight, decide_eq_true hk,
    Bool.true_and]

/-- The upper three bytes of a register. -/
theorem upper_table (r : Registers) (register : Register) :
    r.table register 3 ++ r.table register 2 ++ r.table register 1 =
      (r.get register).extractLsb' 8 (8 + 8 + 8) := by
  apply BitVec.eq_of_getLsbD_eq
  intro i hi
  rw [BitVec.getLsbD_append, BitVec.getLsbD_append, BitVec.getLsbD_extractLsb', decide_eq_true hi,
    Bool.true_and]
  split
  · next h =>
    rw [getLsbD_table _ _ _ h]
    congr 1
  · split
    · next h =>
      rw [getLsbD_table _ _ _ h]
      congr 1
      omega
    · have h : i - 8 - 8 < 8 := by omega
      rw [getLsbD_table _ _ _ h]
      congr 1
      omega

/-- An operation begins at the same address. -/
theorem address_table (r : Registers) (low : Byte) : r.table.address low = r.address low :=
  congrArg (· ++ low) (r.upper_table .address)

/-- The bytes of a register make up its value. -/
theorem value_table (r : Registers) (register : Register) :
    r.table.value register = r.get register := by
  apply BitVec.eq_of_getLsbD_eq
  intro i hi
  rw [RegisterTable.value, BitVec.getLsbD_append, upper_table]
  split
  · next h =>
    rw [getLsbD_table _ _ _ h]
    congr 1
    omega
  · have h : i - 8 < 8 + 8 + 8 := by omega
    rw [BitVec.getLsbD_extractLsb', decide_eq_true h, Bool.true_and]
    congr 1
    omega

/-- A poll has as many attempts. -/
theorem pollBudget_table (r : Registers) : r.table.pollBudget = r.pollBudget := by
  rw [RegisterTable.pollBudget, value_table, pollBudget, get]
  split
  · next hzero =>
    rw [hzero]
    rfl
  · next hne =>
    have hpos : r.pollCount.toNat ≠ 0 := fun h => hne (BitVec.eq_of_toNat_eq h)
    omega

/-! ### Loading a register -/

theorem after_append (r : Registers) (ops ops' : List Op) :
    r.after (ops ++ ops') = (r.after ops).after ops' :=
  List.foldl_append

/-- Operations that set the bytes of a list to those of a value. -/
theorem byte_after_setBytes (value : Value) {targets : List RegisterByte}
    (ht : ∀ x ∈ targets, x.index < 4) {b : RegisterByte} (hb : b.index < 4) (r : Registers) :
    (r.after (targets.map (Script.setByte value))).byte b =
      if b ∈ targets then (value >>> b.shift).setWidth 8 else r.byte b := by
  induction targets generalizing r with
  | nil => rfl
  | cons x targets ih =>
      have hfirst : r.after ((x :: targets).map (Script.setByte value)) =
          (r.set x ((value >>> x.shift).setWidth 8)).after (targets.map (Script.setByte value)) :=
        rfl
      rw [hfirst, ih fun y hy => ht y (List.mem_cons_of_mem x hy),
        byte_set r (ht x List.mem_cons_self) hb]
      by_cases hmem : b ∈ targets
      · rw [if_pos hmem, if_pos (List.mem_cons_of_mem x hmem)]
      · rw [if_neg hmem]
        by_cases hx : b = x
        · subst hx
          rw [if_pos rfl, if_pos List.mem_cons_self]
        · rw [if_neg hx, if_neg (by simp [hx, hmem])]

/-- Values that agree on a byte agree on its bits. -/
theorem getLsbD_of_byte {v w : Value} {i : Nat}
    (h : (v >>> (8 * (i / 8))).setWidth 8 = (w >>> (8 * (i / 8))).setWidth 8) :
    v.getLsbD i = w.getLsbD i := by
  have hbit := congrArg (BitVec.getLsbD · (i % 8)) h
  have hsum : 8 * (i / 8) + i % 8 = i := by omega
  have hlt : i % 8 < 8 := by omega
  simpa [hsum, hlt] using hbit

/-- The operations that load a register set each of its bytes that can be set. -/
theorem ops_load (register : Register) (value : Value) :
    (register.load value).ops = register.settable.map (Script.setByte value) := by
  cases register <;> rfl

/-- What has been loaded is found in every byte that can be set. -/
theorem byte_after_load (r : Registers) (register : Register) (value : Value) {b : RegisterByte}
    (hb : b ∈ register.settable) :
    (r.after (register.load value).ops).byte b = (value >>> b.shift).setWidth 8 := by
  have hindex : ∀ x ∈ register.settable, x.index < 4 := by
    cases register <;> decide
  rw [ops_load, byte_after_setBytes value hindex (hindex b hb), if_pos hb]

/-- **Loading a register leaves the value in it**, whatever it held before. -/
theorem holds_after_load (r : Registers) (register : Register) (value : Value) :
    (r.after (register.load value).ops).Holds register value := by
  have hbit : ∀ i < 32, ⟨register, i / 8⟩ ∈ register.settable →
      ((r.after (register.load value).ops).get register).getLsbD i = value.getLsbD i := by
    intro i hi hmem
    apply getLsbD_of_byte
    have hbyte := byte_after_load r register value hmem
    have hshift : (⟨register, i / 8⟩ : RegisterByte).shift = 8 * (i / 8) := by
      rw [RegisterByte.shift, Nat.mod_eq_of_lt (show i / 8 < 4 by omega)]
    rwa [byte, hshift] at hbyte
  cases register with
  | address =>
      apply BitVec.eq_of_getLsbD_eq
      intro i hi
      have hmem : ⟨.address, (8 + i) / 8⟩ ∈ Register.address.settable :=
        Register.mem_settable (by omega) fun _ => by omega
      have hupper : (r.after (Register.address.load value).ops).page.getLsbD (8 + i) =
          value.getLsbD (8 + i) := hbit _ (by omega) hmem
      rw [BitVec.getLsbD_extractLsb', BitVec.getLsbD_extractLsb', hupper]
  | pollDelay | pollCount =>
      apply BitVec.eq_of_getLsbD_eq
      intro i hi
      exact hbit i hi (Register.mem_settable (by omega) (by rintro ⟨⟩))

/-- Operations that set other registers leave a register as it is. -/
theorem get_after_of_ne {register : Register} {ops : List Op}
    (h : ∀ target value, .set target value ∈ ops → target.register ≠ register) (r : Registers) :
    (r.after ops).get register = r.get register := by
  induction ops generalizing r with
  | nil => rfl
  | cons op ops ih =>
      have hrest := ih fun target value hmem => h target value (List.mem_cons_of_mem op hmem)
      have hfirst : (r.afterOp op).get register = r.get register := by
        cases op with
        | set target value =>
            have hne := h target value List.mem_cons_self
            rw [afterOp, get_set, if_neg (Ne.symm hne)]
        | poll address bit untilSet | read address width count increment
        | write address width data increment => rfl
      exact (hrest (r.afterOp op)).trans hfirst

/-- **What has been loaded stays** as long as only other registers are set. -/
theorem Holds.after {r : Registers} {register : Register} {value : Value}
    (h : r.Holds register value) {ops : List Op}
    (hops : ∀ target value, .set target value ∈ ops → target.register ≠ register) :
    (r.after ops).Holds register value := by
  have hsame := get_after_of_ne hops r
  cases register with
  | address =>
      have hpage : (r.after ops).page = r.page := hsame
      rw [Holds, hpage]
      exact h
  | pollDelay | pollCount => exact hsame.trans h

end Registers

end BusScript
