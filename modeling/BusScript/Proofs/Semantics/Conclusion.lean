import BusScript.Engine.Activity
import BusScript.Proofs.Script.Codec
import BusScript.Semantics

/-!
# How Byte Strings May End

`Machine.executeAll` says what operations do, but an engine is fed bytes, which need not be
operations at all. `Machine.Concludes stride m bytes c` says that a machine `m` that is fed
`bytes` may end as `c`. It is a relation only because of bytes that run out within a write: how
many of the values that are there get written before the engine gives up is left open
(`Machine.Abandons`). In every other case the conclusion is determined.

## Main results

* `Machine.Concludes.executeAll` — bytes that are complete operations, whatever follows them,
  do what `executeAll` says of the operations.
* `Machine.Concludes.completed_inv` — only complete operations that all succeed complete.
* `Script.eq_conclude_interpret` — the bytes of a script conclude as the script is interpreted.
-/

namespace BusScript

/-- How a script ended, and the machine that it left. -/
structure Conclusion where
  verdict : Verdict
  error : Option RunError
  machine : Machine

namespace Machine

/-- The conclusion of operations that ran to their end or were stopped. -/
def conclude : Machine × Option Stop → Conclusion
  | (m, none) => ⟨.completed, none, m⟩
  | (m, some (verdict, error)) => ⟨verdict, some error, m⟩

/-! ### Single transactions -/

/-- A read finds a value or fails. -/
theorem perform_read_cases (m : Machine) (address : Address) :
    (∃ v m', m.perform ⟨address, .read⟩ = (.read v, m')) ∨
      ∃ m', m.perform ⟨address, .read⟩ = (.fault, m') := by
  rw [perform, Bus.Atomic.perform]
  rcases m.memory.cell address with ⟨value, _ | ⟨v, rest⟩, _ | _⟩ <;> simp

/-- A write succeeds or fails. -/
theorem perform_write_cases (m : Machine) (address : Address) (value : Value) :
    (∃ m', m.perform ⟨address, .write value⟩ = (.written, m')) ∨
      ∃ m', m.perform ⟨address, .write value⟩ = (.fault, m') := by
  rw [perform, Bus.Atomic.perform]
  rcases m.memory.cell address with ⟨_, _ | ⟨v, rest⟩, _ | _⟩ <;> simp

/-- A transaction fails, or has the outcome of its direction. -/
theorem perform_cases {m m' : Machine} {t : Bus.Transaction} {outcome : Bus.Outcome}
    (hx : m.perform t = (outcome, m')) :
    outcome = .fault ∨ (t.isWrite = false ∧ ∃ v, outcome = .read v) ∨
      (t.isWrite = true ∧ outcome = .written) := by
  obtain ⟨address, access⟩ := t
  cases access with
  | read =>
      rcases m.perform_read_cases address with ⟨v, m', hv⟩ | ⟨m', hv⟩
      · cases hv.symm.trans hx
        exact .inr (.inl ⟨rfl, v, rfl⟩)
      · cases hv.symm.trans hx
        exact .inl rfl
  | write value =>
      rcases m.perform_write_cases address value with ⟨m', hv⟩ | ⟨m', hv⟩
      · cases hv.symm.trans hx
        exact .inr (.inr ⟨rfl, rfl⟩)
      · cases hv.symm.trans hx
        exact .inl rfl

/-- A transaction changes the memory of a machine and counts as made. -/
theorem eq_of_perform {m m' : Machine} {t : Bus.Transaction} {outcome : Bus.Outcome}
    (hx : m.perform t = (outcome, m')) :
    m'.registers = m.registers ∧ m'.results = m.results ∧
      m'.transactions = m.transactions + 1 ∧ m.memory.perform t = (outcome, m'.memory) := by
  cases hx
  exact ⟨rfl, rfl, rfl, rfl⟩

/-! ### The relation -/

/-- A write whose bytes run out, with `writes` the transactions of the values that are there,
may end as `c`: it makes some of them and is then given up. A fault of the last one is reported
or not, depending on which of the two is noticed first. -/
inductive Abandons : Machine → List (Address × Value) → Conclusion → Prop
  | quit {m : Machine} {writes : List (Address × Value)} :
      Abandons m writes ⟨.errored, some .incompleteOperation, m⟩
  | written {m m' : Machine} {address : Address} {value : Value}
      {writes : List (Address × Value)} {c : Conclusion} :
      m.perform ⟨address, .write value⟩ = (.written, m') → Abandons m' writes c →
      Abandons m ((address, value) :: writes) c
  | fault {m m' : Machine} {address : Address} {value : Value}
      {writes : List (Address × Value)} {error : RunError} :
      m.perform ⟨address, .write value⟩ = (.fault, m') →
      error = .busFault address true ∨ error = .incompleteOperation →
      Abandons m ((address, value) :: writes) ⟨.errored, some error, m'⟩

end Machine

namespace Transfer

/-- The addresses of the transactions that have not been begun. -/
def addresses (t : Transfer) (stride : Value) : List Address :=
  Machine.addresses stride t.increment t.remaining t.address

/-- The transactions that write `values`. -/
def writes (t : Transfer) (stride : Value) (values : List Value) : List (Address × Value) :=
  (t.addresses stride).zip values

/-- The transactions that write the values whose bytes are all there. -/
def supplied (t : Transfer) (stride : Value) (bytes : List Byte) : List (Address × Value) :=
  t.writes stride (Op.values t.width.bytes (bytes.length / t.width.bytes) bytes)

/-- A transfer begins with its own address and goes on as the next one. -/
theorem addresses_of_ne_zero {t : Transfer} (h : t.remaining ≠ 0) (stride : Value) :
    t.addresses stride = t.address :: (t.next stride).addresses stride := by
  obtain ⟨n, hn⟩ : ∃ n, t.remaining = n + 1 := ⟨t.remaining - 1, by omega⟩
  simp only [addresses, next, hn, Machine.addresses, Nat.add_sub_cancel]

/-- The bytes that a transfer still takes: those of one value, and those of the next transfer. -/
theorem bytes_of_ne_zero {t : Transfer} (h : t.remaining ≠ 0) (stride : Value) :
    t.remaining * t.width.bytes =
      t.width.bytes + (t.next stride).remaining * (t.next stride).width.bytes := by
  obtain ⟨n, hn⟩ : ∃ n, t.remaining = n + 1 := ⟨t.remaining - 1, by omega⟩
  simp only [next, hn, Nat.add_sub_cancel, Nat.succ_mul, Nat.add_comm]

/-- The first write of a transfer takes its value from the front of the bytes. -/
theorem writes_of_ne_zero {t : Transfer} (h : t.remaining ≠ 0) (stride : Value) (n : Nat)
    (bytes : List Byte) :
    t.writes stride (Op.values t.width.bytes (n + 1) bytes) =
      (t.address, LittleEndian.ofBytes 32 (bytes.take t.width.bytes)) ::
        (t.next stride).writes stride
          (Op.values t.width.bytes n (bytes.drop t.width.bytes)) := by
  rw [writes, addresses_of_ne_zero h, Op.values, List.zip_cons_cons]
  rfl

/-- The writes whose bytes are there, if those of the first are. -/
theorem supplied_of_ne_zero {t : Transfer} (h : t.remaining ≠ 0) (stride : Value)
    {bytes : List Byte} (hlen : t.width.bytes ≤ bytes.length) :
    t.supplied stride bytes =
      (t.address, LittleEndian.ofBytes 32 (bytes.take t.width.bytes)) ::
        (t.next stride).supplied stride (bytes.drop t.width.bytes) := by
  have hcount : bytes.length / t.width.bytes =
      (bytes.drop t.width.bytes).length / t.width.bytes + 1 := by
    rw [List.length_drop, Nat.div_eq_sub_div t.width.bytes_pos hlen]
  rw [supplied, hcount, writes_of_ne_zero h]
  rfl

end Transfer

namespace Machine

/-- What may become of a machine that is fed bytes. -/
inductive Concludes (stride : Value) : Machine → List Byte → Conclusion → Prop
  | done {m : Machine} : Concludes stride m [] ⟨.completed, none, m⟩
  | cutHeader {m : Machine} {b : Byte} :
      Concludes stride m [b] ⟨.errored, some .incompleteOperation, m⟩
  | malformed {m : Machine} {opcode operand : Byte} {rest : List Byte} {e : DecodeError} :
      Header.decode opcode operand = .error e →
      Concludes stride m (opcode :: operand :: rest) ⟨.errored, some (.undecodable e), m⟩
  | cutWrite {m : Machine} {opcode operand address : Byte} {width : Width} {count : Nat}
      {increment : Bool} {rest : List Byte} {c : Conclusion} :
      Header.decode opcode operand = .ok (.write address width count increment) →
      rest.length < count * width.bytes →
      m.Abandons (Transfer.supplied ⟨m.registers.address address, width, count, increment⟩
        stride rest) c →
      Concludes stride m (opcode :: operand :: rest) c
  | next {m m' : Machine} {opcode operand : Byte} {header : Header} {rest : List Byte}
      {c : Conclusion} :
      Header.decode opcode operand = .ok header → header.payloadLength ≤ rest.length →
      m.execute stride (Op.ofHeader header (rest.take header.payloadLength)) = (m', none) →
      Concludes stride m' (rest.drop header.payloadLength) c →
      Concludes stride m (opcode :: operand :: rest) c
  | stop {m m' : Machine} {opcode operand : Byte} {header : Header} {rest : List Byte}
      {verdict : Verdict} {error : RunError} :
      Header.decode opcode operand = .ok header → header.payloadLength ≤ rest.length →
      m.execute stride (Op.ofHeader header (rest.take header.payloadLength)) =
        (m', some (verdict, error)) →
      Concludes stride m (opcode :: operand :: rest) ⟨verdict, some error, m'⟩

/-- What may become of a machine that operations have left, with `bytes` still to come. -/
def ConcludesAfter (stride : Value) (bytes : List Byte) (c : Conclusion) :
    Machine × Option Stop → Prop
  | (m, none) => m.Concludes stride bytes c
  | (m, some stop) => c = conclude (m, some stop)

/-- A complete operation in front of other bytes. -/
theorem Concludes.operation {stride : Value} {m : Machine} {opcode operand : Byte}
    {header : Header} {rest : List Byte} {c : Conclusion}
    (hd : Header.decode opcode operand = .ok header) (hlen : header.payloadLength ≤ rest.length)
    (h : ConcludesAfter stride (rest.drop header.payloadLength) c
      (m.execute stride (Op.ofHeader header (rest.take header.payloadLength)))) :
    m.Concludes stride (opcode :: operand :: rest) c := by
  rcases hx : m.execute stride (Op.ofHeader header (rest.take header.payloadLength)) with
    ⟨m', _ | ⟨verdict, error⟩⟩
  · rw [hx] at h
    exact .next hd hlen hx h
  · rw [hx] at h
    obtain rfl : c = ⟨verdict, some error, m'⟩ := h
    exact .stop hd hlen hx

/-! ### Complete operations -/

/-- Inversion of `Concludes.operation`. -/
theorem Concludes.of_operation {stride : Value} {m : Machine} {opcode operand : Byte}
    {header : Header} {payload rest : List Byte} {c : Conclusion}
    (hd : Header.decode opcode operand = .ok header)
    (hp : payload.length = header.payloadLength)
    (h : m.Concludes stride (opcode :: operand :: (payload ++ rest)) c) :
    ConcludesAfter stride rest c (m.execute stride (Op.ofHeader header payload)) := by
  cases h with
  | malformed he => simp [hd] at he
  | cutWrite hw hlt =>
      obtain rfl : header = _ := by simpa [hd] using hw
      simp only [Header.payloadLength, List.length_append] at hp hlt
      omega
  | next hd' _ hx hrest =>
      obtain rfl : header = _ := by simpa [hd] using hd'
      rw [List.take_left' hp] at hx
      rw [List.drop_left' hp] at hrest
      rw [hx]
      exact hrest
  | stop hd' _ hx =>
      obtain rfl : header = _ := by simpa [hd] using hd'
      rw [List.take_left' hp] at hx
      rw [hx]
      rfl

/-- **Complete operations do what they say**: bytes that are complete operations stop the
machine where one of them does, and otherwise hand it on to the bytes behind them. -/
theorem Concludes.executeAll {stride : Value} {m : Machine} {bytes rest : List Byte}
    {ops : List Op} {c : Conclusion} (hread : Op.readAll? bytes = some ops)
    (h : m.Concludes stride (bytes ++ rest) c) :
    ConcludesAfter stride rest c (m.executeAll stride ops) := by
  refine Op.readAll?_induction (motive := fun bytes ops => ∀ m : Machine,
    m.Concludes stride (bytes ++ rest) c → ConcludesAfter stride rest c (m.executeAll stride ops))
    ?_ ?_ hread m h
  · intro m h
    exact h
  · intro opcode operand header payload rest' ops hd hp _ ih m h
    rw [List.cons_append, List.cons_append, List.append_assoc] at h
    have hone := Concludes.of_operation hd hp h
    rw [Machine.executeAll]
    rcases hx : m.execute stride (Op.ofHeader header payload) with ⟨m', _ | stop⟩
    · rw [hx] at hone
      exact ih m' hone
    · rw [hx] at hone
      exact hone

/-- Bytes that are nothing but complete operations conclude as `executeAll` says. -/
theorem Concludes.eq_of_readAll? {stride : Value} {m : Machine} {bytes : List Byte}
    {ops : List Op} {c : Conclusion} (hread : Op.readAll? bytes = some ops)
    (h : m.Concludes stride bytes c) : c = conclude (m.executeAll stride ops) := by
  rw [← List.append_nil bytes] at h
  have hafter := h.executeAll hread
  rcases hx : m.executeAll stride ops with ⟨m', _ | stop⟩
  · rw [hx] at hafter
    cases hafter
    rfl
  · rw [hx] at hafter
    exact hafter

/-! ### Written values -/

/-- A script does not see the bits of a written value that its width cuts off. -/
theorem execute_masked (m : Machine) (stride : Value) (op : Op) :
    m.execute stride op.masked = m.execute stride op := by
  cases op with
  | set target value => rfl
  | poll address bit untilSet => rfl
  | read address width count increment => rfl
  | write address width data increment =>
      have hmask : ((· &&& width.mask) ∘ (· &&& width.mask) : Value → Value) =
          (· &&& width.mask) := by
        funext v
        simp only [Function.comp_apply, BitVec.and_assoc, BitVec.and_self]
      rw [Op.masked, execute, execute, List.length_map, List.map_map, hmask]

/-- The same for a whole list of operations. -/
theorem executeAll_masked (m : Machine) (stride : Value) (ops : List Op) :
    m.executeAll stride (ops.map Op.masked) = m.executeAll stride ops := by
  induction ops generalizing m with
  | nil => rfl
  | cons op ops ih =>
      rw [List.map_cons, executeAll, executeAll, execute_masked]
      rcases m.execute stride op with ⟨m', _ | stop⟩
      · exact ih m'
      · rfl

/-! ### Completion -/

/-- Reading that is stopped is stopped by a fault. -/
theorem readAll_stop {m m' : Machine} {width : Width} {addresses : List Address} {stop : Stop}
    (h : m.readAll width addresses = (m', some stop)) : stop.1 = .errored := by
  induction addresses generalizing m with
  | nil => simp [readAll] at h
  | cons address addresses ih =>
      rw [readAll] at h
      split at h
      · exact ih h
      · cases h
        rfl

/-- Writing that is stopped is stopped by a fault. -/
theorem writeAll_stop {m m' : Machine} {writes : List (Address × Value)} {stop : Stop}
    (h : m.writeAll writes = (m', some stop)) : stop.1 = .errored := by
  induction writes generalizing m with
  | nil => simp [writeAll] at h
  | cons write writes ih =>
      rw [writeAll] at h
      split at h
      · exact ih h
      · cases h
        rfl

/-- A poll that is stopped has not completed the script. -/
theorem poll_stop {m m' : Machine} {address : Address} {bit : Nat} {untilSet : Bool}
    {made left : Nat} {stop : Stop} (h : m.poll address bit untilSet made left = (m', some stop)) :
    stop.1 ≠ .completed := by
  induction left generalizing m made with
  | zero =>
      cases h
      simp
  | succ left ih =>
      rw [poll] at h
      split at h
      · split at h
        · cases h
        · exact ih h
      · cases h
        simp

/-- An operation that stops the script does not complete it. -/
theorem execute_stop {m m' : Machine} {stride : Value} {op : Op} {stop : Stop}
    (h : m.execute stride op = (m', some stop)) : stop.1 ≠ .completed := by
  cases op with
  | set target value => simp [execute] at h
  | poll address bit untilSet => exact poll_stop h
  | read address width count increment =>
      have := readAll_stop h
      simp [this]
  | write address width data increment =>
      have := writeAll_stop h
      simp [this]

/-- Giving a write up is an error. -/
theorem Abandons.verdict_eq {m : Machine} {writes : List (Address × Value)} {c : Conclusion}
    (h : m.Abandons writes c) : c.verdict = .errored := by
  induction h with
  | quit => rfl
  | written _ _ ih => exact ih
  | fault _ _ => rfl

/-- **Only complete operations complete**: bytes after which the script has completed are
operations that all succeed. -/
theorem Concludes.completed_inv {stride : Value} {m : Machine} {bytes : List Byte}
    {c : Conclusion} (h : m.Concludes stride bytes c) (hc : c.verdict = .completed) :
    ∃ ops m', Op.readAll? bytes = some ops ∧ m.executeAll stride ops = (m', none) := by
  induction h with
  | done => exact ⟨[], _, Op.readAll?_nil, rfl⟩
  | cutHeader => cases hc
  | malformed => cases hc
  | cutWrite _ _ ha => simp [ha.verdict_eq] at hc
  | @next m m₁ opcode operand header rest c hd hlen hx _ ih =>
      obtain ⟨ops, m', hread, hall⟩ := ih hc
      refine ⟨Op.ofHeader header (rest.take header.payloadLength) :: ops, m', ?_, ?_⟩
      · have hp : (rest.take header.payloadLength).length = header.payloadLength := by
          simp
          omega
        conv => lhs; rw [← List.take_append_drop header.payloadLength rest]
        rw [Op.readAll?] at hread ⊢
        rw [Op.readAll_operation hd hp]
        split at hread
        · next heq =>
          cases hread
          rw [heq]
        · cases hread
      · rw [Machine.executeAll, hx]
        exact hall
  | stop _ _ hx => exact absurd hc (execute_stop hx)

end Machine

/-- **The bytes of a script conclude as the script is interpreted.** -/
theorem Script.eq_conclude_interpret {s : Script} {options : Options} {memory : Bus.Atomic}
    {c : Conclusion}
    (h : (Machine.initial options memory).Concludes options.stride s.bytes c) :
    c = Machine.conclude (s.interpret options memory) := by
  rw [h.eq_of_readAll? s.readAll?_bytes, Machine.executeAll_masked]
  rfl

end BusScript
