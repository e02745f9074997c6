import Std.Data.TreeMap
import BusScript.Bus.Target

/-!
# The Memory Target

A `Memory` is a target with one word of storage per address. It answers after a fixed number
of **wait states**, can be told to fail at chosen addresses, and can be given values that
successive reads of an address are to find there, so that it can stand in for a device that
changes on its own. Every completed transaction is logged, in order.

The time and the wires are in `Memory.respond`; what a transaction does once its last access
cycle comes is `Memory.perform`.
-/

namespace BusScript.Bus

/-- What a memory holds at one address. -/
structure Cell where
  /-- The stored word. -/
  value : Value := 0
  /-- Words that the next reads will find there, soonest first. -/
  upcoming : List Value := []
  /-- Whether every transaction at this address fails. -/
  faulty : Bool := false
  deriving DecidableEq, Repr

/-- A completed transaction, and whether it failed. -/
structure LogEntry where
  transaction : Transaction
  faulted : Bool
  deriving DecidableEq, Repr

/-- A target that stores words. An address without a cell holds zero. -/
structure Memory where
  cells : Std.TreeMap Address Cell := {}
  /-- The access cycles of every transaction that are not answered ready. -/
  waitStates : Nat := 0
  /-- How many of them the current transaction has been through. -/
  waited : Nat := 0
  /-- The completed transactions, oldest first. -/
  log : Array LogEntry := #[]

namespace Memory

/-- What is held at an address. -/
def cell (m : Memory) (address : Address) : Cell :=
  m.cells.getD address {}

/-- Replaces what is held at an address. -/
def setCell (m : Memory) (address : Address) (c : Cell) : Memory :=
  { m with cells := m.cells.insert address c }

/-- The word stored at an address. -/
def load (m : Memory) (address : Address) : Value :=
  (m.cell address).value

/-- Stores a word, outside any transaction. -/
def store (m : Memory) (address : Address) (value : Value) : Memory :=
  m.setCell address { m.cell address with value }

/-- Makes an address fail from now on. -/
def addFault (m : Memory) (address : Address) : Memory :=
  m.setCell address { m.cell address with faulty := true }

/-- Lets reads of an address find these values, after those already waiting there. -/
def addReads (m : Memory) (address : Address) (values : List Value) : Memory :=
  m.setCell address
    { m.cell address with upcoming := (m.cell address).upcoming ++ values }

/-- Appends a completed transaction to the log. -/
def record (m : Memory) (t : Transaction) (faulted : Bool) : Memory :=
  { m with log := m.log.push ⟨t, faulted⟩ }

/-- Carries a transaction out. At a faulty address nothing but the log changes. A read finds
the next upcoming value, which is stored from then on, or else the stored one. -/
def perform (m : Memory) (t : Transaction) : Outcome × Memory :=
  let c := m.cell t.address
  if c.faulty then (.fault, m.record t true)
  else match t.access with
    | .read =>
      match c.upcoming with
      | [] => (.read c.value, m.record t false)
      | v :: rest =>
        (.read v, (m.record t false).setCell t.address { c with value := v, upcoming := rest })
    | .write v => (.written, (m.record t false).setCell t.address { c with value := v })

/-- One cycle. A setup cycle restarts the count of wait states, and the access cycle after the
last of them carries the transaction out. -/
def respond (m : Memory) (r : Request) : Response × Memory :=
  match r.transaction? with
  | none => (.wait, m)
  | some t =>
    if !r.enable then (.wait, { m with waited := 0 })
    else if m.waited < m.waitStates then (.wait, { m with waited := m.waited + 1 })
    else
      let (outcome, m) := { m with waited := 0 }.perform t
      (outcome.response, m)

instance : Target Memory := ⟨respond⟩

/-- The transactions that succeeded, oldest first. -/
def transactions (m : Memory) : List Transaction :=
  (m.log.toList.filter fun entry => !entry.faulted).map LogEntry.transaction

/-! ### Cells after an update -/

theorem cell_setCell (m : Memory) (a b : Address) (c : Cell) :
    (m.setCell a c).cell b = if a = b then c else m.cell b := by
  simp [cell, setCell, Std.TreeMap.getD_insert]

@[simp] theorem cell_record (m : Memory) (t : Transaction) (faulted : Bool) (a : Address) :
    (m.record t faulted).cell a = m.cell a := rfl

@[simp] theorem log_setCell (m : Memory) (a : Address) (c : Cell) :
    (m.setCell a c).log = m.log := rfl

@[simp] theorem log_record (m : Memory) (t : Transaction) (faulted : Bool) :
    (m.record t faulted).log = m.log.push ⟨t, faulted⟩ := rfl

end Memory

end BusScript.Bus
