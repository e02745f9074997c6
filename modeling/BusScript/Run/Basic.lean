import BusScript.Engine.Basic

/-!
# Runs

A run clocks a **system**, which is everything that changes from cycle to cycle, until the
engine in it reports the end of a script or the limit on cycles is reached. `drive` does the
clocking and keeps a `Tally` of what was reported; it asks of a system only the function that
carries out one cycle.
-/

namespace BusScript.Run

/-- What has been seen of a run. -/
structure Tally where
  cycles : Nat := 0
  /-- The values read, oldest first. -/
  results : Array ReadResult := #[]
  deriving DecidableEq, Repr

/-- Takes the report of one more cycle into account. -/
def Tally.add (t : Tally) (report : Report) : Tally :=
  ⟨t.cycles + 1,
    match report.result with
    | none => t.results
    | some result => t.results.push result⟩

@[simp] theorem Tally.cycles_add (t : Tally) (report : Report) :
    (t.add report).cycles = t.cycles + 1 := rfl

/-- Clocks a system until a run ends, or until as many cycles have been seen as the limit allows.
The limit is looked at after each cycle that does not end the run, so one cycle is always made, and
a run that ends in the last cycle that is allowed has ended. -/
def drive {σ : Type} (cycle : σ → σ × Report) (limit : Nat) (tally : Tally) (system : σ) :
    σ × Option (Verdict × Tally) :=
  let (system, report) := cycle system
  let seen := tally.add report
  match report.status with
  | .ended verdict => (system, some (verdict, seen))
  | _ => if limit ≤ seen.cycles then (system, none) else drive cycle limit seen system
termination_by limit - tally.cycles
decreasing_by
  have hopen : ¬ limit ≤ tally.cycles + 1 := by assumption
  rw [Tally.cycles_add]
  omega

/-- What is reported of a finished run. -/
structure Summary where
  verdict : Verdict
  /-- Why the run failed, if it did. -/
  error : Option RunError
  /-- The values read, oldest first. -/
  results : Array ReadResult
  cycles : Nat
  /-- The transactions begun. -/
  transactions : Nat
  deriving DecidableEq, Repr

/-- A run that did not end within its limit. -/
structure LimitError where
  maxCycles : Nat
  deriving DecidableEq, Repr

/-- The wording of an exceeded limit. -/
def LimitError.message (e : LimitError) : String :=
  "script did not finish within " ++ toString e.maxCycles ++ " cycles"

/-- The summary of a run of a new engine that has just ended. An engine keeps the error of an
earlier run, so a completed run has none. -/
def summarize (e : Engine) (verdict : Verdict) (tally : Tally) : Summary :=
  ⟨verdict, if verdict = .completed then none else e.lastError, tally.results, tally.cycles,
    e.bus.issued⟩

/-- Clocks a system until its run ends, or until it has made the cycles that its engine allows. -/
def complete {σ : Type} (cycle : σ → σ × Report) (engine : σ → Engine) (system : σ) :
    Except LimitError Summary × σ :=
  let maxCycles := (engine system).options.maxCycles
  match drive cycle maxCycles {} system with
  | (system, none) => (.error ⟨maxCycles⟩, system)
  | (system, some (verdict, tally)) => (.ok (summarize (engine system) verdict tally), system)

end BusScript.Run
