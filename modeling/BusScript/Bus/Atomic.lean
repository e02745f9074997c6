import BusScript.Bus.Memory

/-!
# Memory Without Time

`Atomic` is a memory seen through its contents alone: a function from addresses to cells and
the list of completed transactions. It has no wires and no wait states, so a transaction is a
single step (`Atomic.perform`). `Memory.atomic` is the view of a memory target.

## Main results

* `Memory.perform_fst_eq_atomic`, `Memory.atomic_perform` — on the view, the completing cycle
  of a memory target is one atomic step.
* `Atomic.log_perform` — every step is logged.
-/

namespace BusScript.Bus

/-- The contents of a memory and the transactions it has completed, oldest first. -/
structure Atomic where
  cell : Address → Cell
  log : List LogEntry

namespace Atomic

/-- The contents with one address replaced. -/
def update (a : Atomic) (address : Address) (c : Cell) : Address → Cell :=
  fun b => if address = b then c else a.cell b

/-- One transaction as a single step. -/
def perform (a : Atomic) (t : Transaction) : Outcome × Atomic :=
  match a.cell t.address, t.access with
  | { faulty := true, .. }, _ => (.fault, ⟨a.cell, a.log ++ [⟨t, true⟩]⟩)
  | { value, upcoming := [], .. }, .read => (.read value, ⟨a.cell, a.log ++ [⟨t, false⟩]⟩)
  | { upcoming := v :: rest, .. }, .read =>
    (.read v, ⟨a.update t.address ⟨v, rest, false⟩, a.log ++ [⟨t, false⟩]⟩)
  | { upcoming, .. }, .write v =>
    (.written, ⟨a.update t.address ⟨v, upcoming, false⟩, a.log ++ [⟨t, false⟩]⟩)

/-- Transactions one after another, whatever becomes of each. -/
def performAll (a : Atomic) : List Transaction → List Outcome × Atomic
  | [] => ([], a)
  | t :: ts =>
    let (outcome, a) := a.perform t
    let (outcomes, a) := a.performAll ts
    (outcome :: outcomes, a)

/-- Every atomic step is logged, with whether it failed. -/
theorem log_perform (a : Atomic) (t : Transaction) :
    (a.perform t).2.log = a.log ++ [⟨t, decide ((a.perform t).1 = .fault)⟩] := by
  obtain ⟨address, access⟩ := t
  rw [perform]
  rcases a.cell address with ⟨value, _ | ⟨v, rest⟩, _ | _⟩ <;> cases access <;> simp

end Atomic

namespace Memory

/-- A memory target without its wait states. -/
def atomic (m : Memory) : Atomic := ⟨m.cell, m.log.toList⟩

/-- The completing cycle ends as the atomic step does. -/
theorem perform_fst_eq_atomic (m : Memory) (t : Transaction) :
    (m.perform t).1 = (m.atomic.perform t).1 := by
  obtain ⟨address, access⟩ := t
  rcases h : m.cell address with ⟨value, _ | ⟨v, rest⟩, _ | _⟩ <;> cases access <;>
    simp [perform, Atomic.perform, atomic, h]

/-- The completing cycle leaves the contents and the log that the atomic step leaves. -/
theorem atomic_perform (m : Memory) (t : Transaction) :
    (m.perform t).2.atomic = (m.atomic.perform t).2 := by
  obtain ⟨address, access⟩ := t
  rcases h : m.cell address with ⟨value, _ | ⟨v, rest⟩, _ | _⟩ <;> cases access <;>
    simp [perform, Atomic.perform, atomic, h, Atomic.update, funext_iff, cell_setCell]

end Memory

end BusScript.Bus
