import BusScript.Proofs.Engine.RegisterFile
import BusScript.Proofs.Semantics.Conclusion

/-!
# How Operations in Progress May End

An engine carries an operation out over many cycles, one transaction at a time. This module
extends `Machine.Concludes` from the boundaries between operations to the points within one:
`Activity.Concludes` between two transactions, and `Activity.ConcludesWith` while a transaction
is outstanding, which has then not had its effect on the machine.

Each step of an engine is matched by an implication here, from what may happen after the step
to what may happen before it: reading a header (`Activity.Concludes.operation`), beginning a
transaction (`concludes_read`, `concludes_write`, `concludes_poll`), ending an operation
(`concludes_read_done`, `concludes_write_done`, `concludes_poll_exhausted`), and giving one up
whose bytes will not come (`concludes_quit`, `concludesWith_quit`).
-/

namespace BusScript

namespace Activity

/-- What may become of a machine with an operation in progress between two transactions. -/
def Concludes (stride : Value) (m : Machine) (bytes : List Byte) (c : Conclusion) :
    Activity → Prop
  | .read t =>
    Machine.ConcludesAfter stride bytes c (m.readAll t.width (t.addresses stride))
  | .write t =>
    if bytes.length < t.remaining * t.width.bytes then m.Abandons (t.supplied stride bytes) c
    else
      Machine.ConcludesAfter stride (bytes.drop (t.remaining * t.width.bytes)) c
        (m.writeAll (t.writes stride (Op.values t.width.bytes t.remaining bytes)))
  | .poll p =>
    Machine.ConcludesAfter stride bytes c
      (m.poll p.address p.bit p.untilSet p.attempts (p.budget - p.attempts))

/-- What may become of a machine with an operation in progress whose transaction `t` is
outstanding. -/
def ConcludesWith (stride : Value) (t : Bus.Transaction) (m : Machine) (bytes : List Byte)
    (c : Conclusion) (a : Activity) : Prop :=
  match a, m.perform t with
  | .read r, (.read v, m) =>
    (read r).Concludes stride
      { m with results := m.results ++ [⟨r.width, v &&& r.width.mask⟩] } bytes c
  | .write w, (.written, m) => (write w).Concludes stride m bytes c
  | .poll p, (.read v, m) =>
    if p.isSatisfied v then m.Concludes stride bytes c else (poll p).Concludes stride m bytes c
  | a, (_, m) =>
    c = ⟨.errored, some (.busFault t.address t.isWrite), m⟩ ∨
      bytes.length < a.bytesNeeded ∧ c = ⟨.errored, some .incompleteOperation, m⟩

variable {stride : Value} {m : Machine} {bytes : List Byte} {c : Conclusion}

/-! ### Reading a header -/

/-- A header that sets a register. -/
theorem concludes_set {opcode operand : Byte} {target : RegisterByte} {value : Byte}
    (hd : Header.decode opcode operand = .ok (.set target value))
    (h : ({ m with registers := m.registers.set target value } : Machine).Concludes
      stride bytes c) :
    m.Concludes stride (opcode :: operand :: bytes) c :=
  .next hd (Nat.zero_le _) rfl h

/-- A header that begins an operation, with the data of a write still among the bytes. -/
theorem Concludes.operation {registers : Registers} {opcode operand : Byte} {header : Header}
    {a : Activity} (hregisters : registers.table = m.registers)
    (hd : Header.decode opcode operand = .ok header)
    (ha : ofHeader? registers header = some a) (h : a.Concludes stride m bytes c) :
    m.Concludes stride (opcode :: operand :: bytes) c := by
  have haddress : ∀ low, registers.address low = m.registers.address low := by
    intro low
    rw [← hregisters, Registers.address_table]
  have hbudget : registers.pollBudget = m.registers.pollBudget := by
    rw [← hregisters, Registers.pollBudget_table]
  cases header with
  | set target value => simp [ofHeader?] at ha
  | poll address bit untilSet =>
      cases ha
      rw [haddress, hbudget] at h
      exact .operation hd (Nat.zero_le _) h
  | read address width count increment =>
      cases ha
      rw [haddress] at h
      exact .operation hd (Nat.zero_le _) h
  | write address width count increment =>
      cases ha
      rw [haddress] at h
      by_cases hlt : bytes.length < count * width.bytes
      · rw [Concludes, if_pos hlt] at h
        exact .cutWrite hd hlt h
      · rw [Concludes, if_neg hlt] at h
        have hle : count * width.bytes ≤ bytes.length := by omega
        refine .operation hd hle ?_
        simp only [Op.ofHeader, Header.payloadLength, Machine.execute, Op.length_values,
          Op.values_take _ _ _ hle, Op.map_and_mask_values]
        exact h

/-! ### The outcome of a transaction -/

/-- A read whose transaction brings a value. -/
theorem concludesWith_read {t : Transfer} {u : Bus.Transaction} {v : Value} {m' : Machine}
    (hx : m.perform u = (.read v, m')) :
    (read t).ConcludesWith stride u m bytes c ↔
      (read t).Concludes stride
        { m' with results := m'.results ++ [⟨t.width, v &&& t.width.mask⟩] } bytes c := by
  simp only [ConcludesWith, hx]

/-- A write whose transaction is made. -/
theorem concludesWith_write {t : Transfer} {u : Bus.Transaction} {m' : Machine}
    (hx : m.perform u = (.written, m')) :
    (write t).ConcludesWith stride u m bytes c ↔ (write t).Concludes stride m' bytes c := by
  simp only [ConcludesWith, hx]

/-- A poll whose transaction brings a value. -/
theorem concludesWith_poll {p : Poll} {u : Bus.Transaction} {v : Value} {m' : Machine}
    (hx : m.perform u = (.read v, m')) :
    (poll p).ConcludesWith stride u m bytes c ↔
      if p.isSatisfied v then m'.Concludes stride bytes c
      else (poll p).Concludes stride m' bytes c := by
  simp only [ConcludesWith, hx]

/-- An operation whose transaction fails stops there, or is given up at the same time. -/
theorem concludesWith_fault {a : Activity} {u : Bus.Transaction} {m' : Machine}
    (hx : m.perform u = (.fault, m')) :
    a.ConcludesWith stride u m bytes c ↔
      c = ⟨.errored, some (.busFault u.address u.isWrite), m'⟩ ∨
        bytes.length < a.bytesNeeded ∧ c = ⟨.errored, some .incompleteOperation, m'⟩ := by
  cases a <;> simp only [ConcludesWith, hx]

/-! ### Beginning a transaction -/

/-- The next transaction of a read. -/
theorem concludes_read {t : Transfer} (hr : t.remaining ≠ 0)
    (h : (read (t.next stride)).ConcludesWith stride ⟨t.address, .read⟩ m bytes c) :
    (read t).Concludes stride m bytes c := by
  rw [Concludes, Transfer.addresses_of_ne_zero hr, Machine.readAll]
  rcases m.perform_read_cases t.address with ⟨v, m', hx⟩ | ⟨m', hx⟩
  · rw [concludesWith_read hx] at h
    rw [hx]
    exact h
  · rw [concludesWith_fault hx] at h
    rw [hx]
    rcases h with h | ⟨hlt, -⟩
    · exact h
    · exact absurd hlt (Nat.not_lt_zero _)

/-- The next attempt of a poll. -/
theorem concludes_poll {p : Poll} (hlt : p.attempts < p.budget)
    (h : (poll { p with attempts := p.attempts + 1 }).ConcludesWith stride ⟨p.address, .read⟩
      m bytes c) :
    (poll p).Concludes stride m bytes c := by
  have hleft : p.budget - p.attempts = p.budget - (p.attempts + 1) + 1 := by omega
  rw [Concludes, hleft, Machine.poll]
  rcases m.perform_read_cases p.address with ⟨v, m', hx⟩ | ⟨m', hx⟩
  · rw [concludesWith_poll hx] at h
    rw [hx]
    by_cases hs : v.getLsbD p.bit = p.untilSet
    · simp only [Poll.isSatisfied, hs, beq_self_eq_true, if_true] at h ⊢
      exact h
    · simp only [Poll.isSatisfied, beq_iff_eq, hs, if_false] at h ⊢
      exact h
  · rw [concludesWith_fault hx] at h
    rw [hx]
    rcases h with h | ⟨hlt, -⟩
    · exact h
    · exact absurd hlt (Nat.not_lt_zero _)

/-- The next transaction of a write takes its value from the front of the bytes. -/
theorem concludes_write {t : Transfer} (hr : t.remaining ≠ 0)
    (hlen : t.width.bytes ≤ bytes.length)
    (h : (write (t.next stride)).ConcludesWith stride
      ⟨t.address, .write (LittleEndian.ofBytes 32 (bytes.take t.width.bytes))⟩ m
      (bytes.drop t.width.bytes) c) :
    (write t).Concludes stride m bytes c := by
  have hsplit := Transfer.bytes_of_ne_zero hr stride
  have hdrop : (bytes.drop t.width.bytes).length = bytes.length - t.width.bytes := by simp
  have houtcome := m.perform_write_cases t.address
    (LittleEndian.ofBytes 32 (bytes.take t.width.bytes))
  rw [Concludes]
  by_cases hcut : bytes.length < t.remaining * t.width.bytes
  · -- the next transfer is cut short as well
    have hcut' : (bytes.drop t.width.bytes).length <
        (t.next stride).remaining * (t.next stride).width.bytes := by omega
    rw [if_pos hcut, Transfer.supplied_of_ne_zero hr stride hlen]
    rcases houtcome with ⟨m', hx⟩ | ⟨m', hx⟩
    · rw [concludesWith_write hx, Concludes, if_pos hcut'] at h
      exact .written hx h
    · rw [concludesWith_fault hx] at h
      rcases h with rfl | ⟨-, rfl⟩
      · exact .fault hx (.inl rfl)
      · exact .fault hx (.inr rfl)
  · have hcut' : ¬ (bytes.drop t.width.bytes).length <
        (t.next stride).remaining * (t.next stride).width.bytes := by omega
    have hcount : t.remaining = (t.next stride).remaining + 1 := by
      simp only [Transfer.next]
      omega
    rw [if_neg hcut, hsplit, ← List.drop_drop, hcount, Transfer.writes_of_ne_zero hr,
      Machine.writeAll]
    rcases houtcome with ⟨m', hx⟩ | ⟨m', hx⟩
    · rw [concludesWith_write hx, Concludes, if_neg hcut'] at h
      rw [hx]
      exact h
    · rw [concludesWith_fault hx] at h
      rw [hx]
      rcases h with h | ⟨hlt, -⟩
      · exact h
      · exact absurd hlt hcut'

/-! ### Ending an operation -/

/-- A read whose transactions have all been made leaves the machine to the bytes behind it. -/
theorem concludes_read_done {t : Transfer} (hr : t.remaining = 0)
    (h : m.Concludes stride bytes c) : (read t).Concludes stride m bytes c := by
  rw [Concludes, Transfer.addresses, hr]
  exact h

/-- A write whose transactions have all been made leaves the machine to the bytes behind it. -/
theorem concludes_write_done {t : Transfer} (hr : t.remaining = 0)
    (h : m.Concludes stride bytes c) : (write t).Concludes stride m bytes c := by
  rw [Concludes, Transfer.writes, Transfer.addresses, hr, Nat.zero_mul, if_neg (Nat.not_lt_zero _)]
  exact h

/-- A poll that has used up its attempts stops the script. -/
theorem concludes_poll_exhausted {p : Poll} (h : p.budget ≤ p.attempts) :
    (poll p).Concludes stride m bytes
      ⟨.pollFailed, some (.pollExhausted p.address p.attempts), m⟩ := by
  rw [Concludes, Nat.sub_eq_zero_of_le h]
  rfl

/-! ### Giving up -/

/-- An operation whose bytes will not all come may be given up between two transactions. -/
theorem concludes_quit {a : Activity} (h : bytes.length < a.bytesNeeded) :
    a.Concludes stride m bytes ⟨.errored, some .incompleteOperation, m⟩ := by
  cases a with
  | read t => exact absurd h (Nat.not_lt_zero _)
  | write t =>
      have hcut : bytes.length < t.remaining * t.width.bytes := h
      rw [Concludes, if_pos hcut]
      exact .quit
  | poll p => exact absurd h (Nat.not_lt_zero _)

/-- An operation whose bytes will not all come may be given up while a transaction is
outstanding, which is carried to its end all the same. -/
theorem concludesWith_quit {a : Activity} {t : Bus.Transaction} (ht : t.isWrite = true)
    (h : bytes.length < a.bytesNeeded) :
    a.ConcludesWith stride t m bytes
      ⟨.errored, some .incompleteOperation, (m.perform t).2⟩ := by
  cases a with
  | read r => exact absurd h (Nat.not_lt_zero _)
  | write w =>
      rcases hx : m.perform t with ⟨outcome, m'⟩
      rcases Machine.perform_cases hx with rfl | ⟨hread, -⟩ | ⟨-, rfl⟩
      · exact (concludesWith_fault hx).mpr (.inr ⟨h, rfl⟩)
      · simp [hread] at ht
      · exact (concludesWith_write hx).mpr (concludes_quit h)
  | poll p => exact absurd h (Nat.not_lt_zero _)

end Activity

end BusScript
