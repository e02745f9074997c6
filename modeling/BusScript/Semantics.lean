import BusScript.Bus.Atomic
import BusScript.Engine.Options
import BusScript.Engine.Report
import BusScript.Script.Basic

/-!
# What a Script Means

A script can be executed without an engine: one operation after the other, each transaction a
single step of an `Atomic` memory. No command word, queue, wire or cycle occurs here, so
`Script.interpret` says what a run is to achieve and not how.

A `Machine` is what the operations act on; an operation either leaves a new machine or stops
the script with a verdict and its reason. Its registers are a table of bytes, as scripts set them
one byte at a time.
-/

namespace BusScript

/-- The registers as a table of bytes, four to a register, byte 0 being the lowest. -/
def RegisterTable : Type := Register → Fin 4 → Byte

namespace RegisterTable

/-- The registers that a script begins with: no page, and what the options say of polls. -/
def initial (options : Options) : RegisterTable
  | .address, _ => 0
  | .pollDelay, i => (options.pollDelay >>> (8 * i.val)).setWidth 8
  | .pollCount, i => (options.pollCount >>> (8 * i.val)).setWidth 8

/-- Replaces one byte, and leaves every other as it is. The index counts modulo four. -/
def set (table : RegisterTable) (target : RegisterByte) (b : Byte) : RegisterTable :=
  fun register i =>
    if register = target.register ∧ i.val = target.index % 4 then b else table register i

/-- The value of a register, from its highest byte down. -/
def value (table : RegisterTable) (register : Register) : Value :=
  table register 3 ++ table register 2 ++ table register 1 ++ table register 0

/-- The address that an operation begins at: the upper three bytes of the address register, and
the byte that the operation supplies. -/
def address (table : RegisterTable) (low : Byte) : Address :=
  table .address 3 ++ table .address 2 ++ table .address 1 ++ low

/-- How many attempts a poll has: what the register says, where zero stands for one. -/
def pollBudget (table : RegisterTable) : Nat :=
  if table.value .pollCount = 0 then 1 else (table.value .pollCount).toNat

end RegisterTable

/-- What the operations of a script act on. -/
structure Machine where
  registers : RegisterTable
  memory : Bus.Atomic
  /-- The values read so far, oldest first. -/
  results : List ReadResult
  /-- The transactions made so far. -/
  transactions : Nat

namespace Machine

/-- The machine that a script begins on. -/
def initial (options : Options) (memory : Bus.Atomic) : Machine :=
  ⟨.initial options, memory, [], 0⟩

/-- Makes one transaction. -/
def perform (m : Machine) (t : Bus.Transaction) : Bus.Outcome × Machine :=
  let (outcome, memory) := m.memory.perform t
  (outcome, { m with memory, transactions := m.transactions + 1 })

/-- Why and how a script stopped before its end. -/
abbrev Stop := Verdict × RunError

/-- The addresses of a transfer of `count` values. -/
def addresses (stride : Value) (increment : Bool) : Nat → Address → List Address
  | 0, _ => []
  | count + 1, address =>
    address :: addresses stride increment count (if increment then address + stride else address)

/-- Reads values, one transaction each, up to the first fault. -/
def readAll (m : Machine) (width : Width) : List Address → Machine × Option Stop
  | [] => (m, none)
  | address :: rest =>
    match m.perform ⟨address, .read⟩ with
    | (.read value, m) =>
      let result : ReadResult := ⟨width, value &&& width.mask⟩
      { m with results := m.results ++ [result] }.readAll width rest
    | (_, m) => (m, some (.errored, .busFault address false))

/-- Writes values, one transaction each, up to the first fault. -/
def writeAll (m : Machine) : List (Address × Value) → Machine × Option Stop
  | [] => (m, none)
  | (address, value) :: rest =>
    match m.perform ⟨address, .write value⟩ with
    | (.written, m) => m.writeAll rest
    | (_, m) => (m, some (.errored, .busFault address true))

/-- Reads an address until a bit has the awaited value, with at most `left` more attempts after
the `made` ones. -/
def poll (m : Machine) (address : Address) (bit : Nat) (untilSet : Bool) (made : Nat) :
    Nat → Machine × Option Stop
  | 0 => (m, some (.pollFailed, .pollExhausted address made))
  | left + 1 =>
    match m.perform ⟨address, .read⟩ with
    | (.read value, m) =>
      if value.getLsbD bit = untilSet then (m, none)
      else m.poll address bit untilSet (made + 1) left
    | (_, m) => (m, some (.errored, .busFault address false))

/-- Executes one operation. -/
def execute (m : Machine) (stride : Value) : Op → Machine × Option Stop
  | .set target value => ({ m with registers := m.registers.set target value }, none)
  | .poll address bit untilSet =>
    m.poll (m.registers.address address) bit untilSet 0 m.registers.pollBudget
  | .read address width count increment =>
    m.readAll width (addresses stride increment count (m.registers.address address))
  | .write address width data increment =>
    m.writeAll ((addresses stride increment data.length (m.registers.address address)).zip
      (data.map (· &&& width.mask)))

/-- Executes operations in order, up to the first that stops the script. -/
def executeAll (m : Machine) (stride : Value) : List Op → Machine × Option Stop
  | [] => (m, none)
  | op :: ops =>
    match m.execute stride op with
    | (m, none) => m.executeAll stride ops
    | (m, some stop) => (m, some stop)

end Machine

/-- Executes a script on a memory, from freshly cleared registers. -/
def Script.interpret (s : Script) (options : Options) (memory : Bus.Atomic) :
    Machine × Option Machine.Stop :=
  (Machine.initial options memory).executeAll options.stride s.ops.toList

end BusScript
