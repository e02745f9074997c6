import BusScript.Proofs.Semantics.Conclusion

/-!
# Bytes That Are Not All Operations

What becomes of bytes that are read as operations with something left over. If nothing is left,
or a header that names no operation, the conclusion is determined: `Machine.executeBytes`
computes it. If the last operation is cut short, the operations before it still do what they do
alone, and of a write that is cut short only values are written whose bytes are all there
(`Machine.GivesUp`).

## Main results

* `Machine.Concludes.eq_conclude` — the conclusion of bytes that end in no incomplete operation.
* `Machine.Concludes.exists_givesUp` — the conclusions of bytes that are one.
-/

namespace BusScript

/-- Why what is left over stops a script, if it does. -/
def Leftover.stop? : Leftover → Option Machine.Stop
  | nothing => none
  | malformed error => some (.errored, .undecodable error)
  | incomplete => some (.errored, .incompleteOperation)

namespace Machine

/-- Executes the operations that bytes hold and stops at what is left over. An operation that is
cut short is not begun. -/
def executeBytes (m : Machine) (stride : Value) (bytes : List Byte) : Machine × Option Stop :=
  match m.executeAll stride (Op.readAll bytes).1 with
  | (m, none) => (m, (Op.readAll bytes).2.stop?)
  | (m, some stop) => (m, some stop)

/-- One complete operation and then the rest. -/
theorem executeBytes_operation {opcode operand : Byte} {header : Header} {rest : List Byte}
    (hd : Header.decode opcode operand = .ok header) (hlen : header.payloadLength ≤ rest.length)
    (m : Machine) (stride : Value) :
    m.executeBytes stride (opcode :: operand :: rest) =
      match m.execute stride (Op.ofHeader header (rest.take header.payloadLength)) with
      | (m, none) => m.executeBytes stride (rest.drop header.payloadLength)
      | (m, some stop) => (m, some stop) := by
  have hp : (rest.take header.payloadLength).length = header.payloadLength := by
    rw [List.length_take]
    omega
  have hread := Op.readAll_operation hd hp (rest.drop header.payloadLength)
  rw [List.take_append_drop] at hread
  rw [executeBytes, hread]
  dsimp only
  rw [executeAll]
  rcases m.execute stride (Op.ofHeader header (rest.take header.payloadLength)) with
    ⟨m', _ | stop⟩
  · rfl
  · rfl

/-- Bytes of which no operation can be read. -/
theorem executeBytes_of_readAll {bytes : List Byte} {left : Leftover}
    (h : Op.readAll bytes = ([], left)) (m : Machine) (stride : Value) :
    m.executeBytes stride bytes = (m, left.stop?) := by
  rw [executeBytes, h]
  rfl

/-- **The conclusion is determined** unless the last operation is cut short. -/
theorem Concludes.eq_conclude {stride : Value} {m : Machine} {bytes : List Byte}
    {c : Conclusion} (h : m.Concludes stride bytes c) (hleft : (Op.readAll bytes).2 ≠ .incomplete) :
    c = conclude (m.executeBytes stride bytes) := by
  induction h with
  | done =>
      rw [executeBytes_of_readAll (by rw [Op.readAll])]
      rfl
  | cutHeader => exact absurd (by rw [Op.readAll]) hleft
  | malformed he =>
      rw [executeBytes_of_readAll (by rw [Op.readAll, he])]
      rfl
  | cutWrite hd hlt _ =>
      exact absurd (by rw [Op.readAll, hd]; simp [Header.payloadLength, hlt]) hleft
  | @next m m' opcode operand header rest c hd hlen hx _ ih =>
      rw [executeBytes_operation hd hlen, hx]
      refine ih ?_
      rw [Op.readAll, hd] at hleft
      simpa [Nat.not_lt.mpr hlen] using hleft
  | @stop m m' opcode operand header rest verdict error hd hlen hx =>
      rw [executeBytes_operation hd hlen, hx]
      rfl

end Machine

/-! ### Operations that are cut short -/

/-- Bytes that begin an operation and leave it incomplete: one byte of a header, or a header with
fewer data bytes behind it than it asks for, as only that of a write can have. -/
inductive Op.Truncated : List Byte → Prop
  | header (b : Byte) : Truncated [b]
  | data {opcode operand : Byte} {header : Header} {rest : List Byte} :
      Header.decode opcode operand = .ok header → rest.length < header.payloadLength →
      Truncated (opcode :: operand :: rest)

/-- The transaction that writes a value. -/
def Bus.Transaction.ofWrite (write : Address × Value) : Bus.Transaction :=
  ⟨write.1, .write write.2⟩

/-- The log names the transactions that were made, in order. -/
theorem Bus.Atomic.log_performAll (a : Bus.Atomic) (ts : List Bus.Transaction) :
    (a.performAll ts).2.log.map LogEntry.transaction = a.log.map LogEntry.transaction ++ ts := by
  induction ts generalizing a with
  | nil => simp [performAll]
  | cons t ts ih =>
      have hlog : (a.perform t).2.log.map LogEntry.transaction =
          a.log.map LogEntry.transaction ++ [t] := by
        rw [log_perform, List.map_append]
        rfl
      rw [performAll]
      dsimp only
      rw [ih, hlog, List.append_assoc]
      rfl

namespace Machine

/-- The values that a write which is cut short has all bytes of, with their addresses. -/
def supplied (m : Machine) (stride : Value) : List Byte → List (Address × Value)
  | opcode :: operand :: rest =>
    match Header.decode opcode operand with
    | .ok (.write address width count increment) =>
      Transfer.supplied ⟨m.registers.address address, width, count, increment⟩ stride rest
    | _ => []
  | _ => []

/-- `c` is an error of a machine `m` that has written the values `made` and no others since, and
then missed bytes or met a fault at the last of them. -/
structure GivesUp (m : Machine) (made : List (Address × Value)) (c : Conclusion) : Prop where
  verdict : c.verdict = .errored
  error : c.error = some .incompleteOperation ∨
    ∃ write, made.getLast? = some write ∧ c.error = some (.busFault write.1 true) ∧
      (m.memory.performAll (made.map .ofWrite)).1.getLast? = some .fault
  results : c.machine.results = m.results
  transactions : c.machine.transactions = m.transactions + made.length
  memory : c.machine.memory = (m.memory.performAll (made.map .ofWrite)).2

/-- Giving up before the next transaction. -/
theorem givesUp_nil (m : Machine) : m.GivesUp [] ⟨.errored, some .incompleteOperation, m⟩ :=
  ⟨rfl, .inl rfl, rfl, rfl, rfl⟩

/-- Giving up after the next transaction. -/
theorem GivesUp.cons {m m' : Machine} {write : Address × Value} {made : List (Address × Value)}
    {outcome : Bus.Outcome} {c : Conclusion} (hx : m.perform (.ofWrite write) = (outcome, m'))
    (h : m'.GivesUp made c) : m.GivesUp (write :: made) c := by
  obtain ⟨-, hres, htr, hmemory⟩ := eq_of_perform hx
  have hall : m.memory.performAll ((write :: made).map .ofWrite) =
      (outcome :: (m'.memory.performAll (made.map .ofWrite)).1,
        (m'.memory.performAll (made.map .ofWrite)).2) := by
    rw [List.map_cons, Bus.Atomic.performAll, hmemory]
  refine ⟨h.verdict, ?_, h.results.trans hres, ?_, ?_⟩
  · rcases h.error with herror | ⟨last, hlast, herror, hfault⟩
    · exact .inl herror
    · refine .inr ⟨last, ?_, herror, ?_⟩
      · rw [List.getLast?_cons, hlast]
        rfl
      · rw [hall, List.getLast?_cons, hfault]
        rfl
  · rw [h.transactions, htr, List.length_cons]
    omega
  · rw [hall]
    exact h.memory

/-- **A write that is given up** has written some of its values, from the first one on: structural
induction, one transaction at a time. -/
theorem Abandons.exists_prefix {m : Machine} {writes : List (Address × Value)} {c : Conclusion}
    (h : m.Abandons writes c) : ∃ made, made <+: writes ∧ m.GivesUp made c := by
  induction h with
  | @quit m writes => exact ⟨[], List.nil_prefix, givesUp_nil m⟩
  | written hx _ ih =>
      obtain ⟨made, hprefix, hgives⟩ := ih
      exact ⟨_ :: made, List.cons_prefix_cons.mpr ⟨rfl, hprefix⟩, hgives.cons hx⟩
  | @fault m m' address value writes error hx herror =>
      refine ⟨[(address, value)], List.cons_prefix_cons.mpr ⟨rfl, List.nil_prefix⟩, ?_⟩
      obtain ⟨-, hres, htr, hmemory⟩ := eq_of_perform hx
      have hall : m.memory.performAll ([(address, value)].map .ofWrite) =
          ([.fault], m'.memory) := by
        rw [List.map_cons, Bus.Atomic.performAll, Bus.Transaction.ofWrite, hmemory]
        rfl
      refine ⟨rfl, ?_, hres, htr, by rw [hall]⟩
      rcases herror with rfl | rfl
      · exact .inr ⟨(address, value), rfl, rfl, by rw [hall]; rfl⟩
      · exact .inl rfl

/-- **Bytes that are an operation cut short** make the machine give up, after some of the values
that are there. -/
theorem Concludes.exists_givesUp {stride : Value} {m : Machine} {bytes : List Byte}
    {c : Conclusion} (ht : Op.Truncated bytes) (h : m.Concludes stride bytes c) :
    ∃ made, made <+: m.supplied stride bytes ∧ m.GivesUp made c := by
  cases ht with
  | header b =>
      cases h with
      | cutHeader => exact ⟨[], List.nil_prefix, givesUp_nil m⟩
  | @data opcode operand header rest hd hlt =>
      cases h with
      | malformed he => simp [hd] at he
      | cutWrite hw _ ha =>
          rw [supplied, hw]
          exact ha.exists_prefix
      | next hd' hlen =>
          obtain rfl : header = _ := by simpa [hd] using hd'
          omega
      | stop hd' hlen =>
          obtain rfl : header = _ := by simpa [hd] using hd'
          omega

end Machine

end BusScript
