import BusScript.Bus.Transaction

/-!
# The Bus Master

A `Master` carries out one transaction at a time. The wires of a cycle depend on its phase
alone (`Master.request`), so a target answers within the cycle; `Master.advance` then takes
the answer and moves the phase on. `issued` counts the transactions ever begun.
-/

namespace BusScript.Bus

/-- Where a master stands in its current transaction. -/
inductive Phase where
  | idle
  | setup (t : Transaction)
  | access (t : Transaction)
  deriving DecidableEq, Repr

/-- A master: its phase, and how many transactions it has begun. -/
structure Master where
  phase : Phase := .idle
  issued : Nat := 0
  deriving DecidableEq, Repr

namespace Master

/-- Whether no transaction is outstanding. -/
def isIdle (m : Master) : Bool :=
  match m.phase with
  | .idle => true
  | _ => false

/-- The outstanding transaction. -/
def outstanding? (m : Master) : Option Transaction :=
  match m.phase with
  | .idle => none
  | .setup t | .access t => some t

/-- The wires driven in this cycle. -/
def request (m : Master) : Request :=
  match m.phase with
  | .idle => .idle
  | .setup t => t.setup
  | .access t => t.enabled

/-- Begins a transaction, which reaches the wires in the next cycle. -/
def start (m : Master) (t : Transaction) : Master :=
  ⟨.setup t, m.issued + 1⟩

/-- Begins a transaction, unless one is outstanding. -/
def issue? (m : Master) (t : Transaction) : Option Master :=
  if m.isIdle then some (m.start t) else none

/-- The end of a cycle in which the target answered `r`: a setup cycle is followed by an
access cycle, and access cycles repeat until the target is ready, when the transaction
retires. -/
def advance (m : Master) (r : Response) : Master × Option (Transaction × Outcome) :=
  match m.phase with
  | .idle => (m, none)
  | .setup t => ({ m with phase := .access t }, none)
  | .access t =>
    match t.retire? r with
    | none => (m, none)
    | some outcome => ({ m with phase := .idle }, some (t, outcome))

/-- Only an issue changes the count of transactions. -/
@[simp] theorem issued_advance (m : Master) (r : Response) :
    (m.advance r).1.issued = m.issued := by
  unfold advance
  split
  · rfl
  · rfl
  · split <;> rfl

end Master

end BusScript.Bus
