import BusScript.Proofs.Feeder.Presentation
import BusScript.Proofs.Run.Clock

/-!
# What a Run Reports

`Run.complete` clocks a system until its engine ends a run, and summarizes what was seen. Here
the clocking is taken care of once for all systems: a property of systems in the middle of a run
that every cycle keeps, or turns into a conclusion, carries over to the summary.

## Main results

* `Run.clock_ended` — what every cycle keeps holds at the end of a run.
* `Run.complete_ended` — and is what its summary is made of.
* `Run.complete_reports` — a run whose system stays underway reports one of the conclusions
  that it was underway to.
-/

namespace BusScript.Run

/-- A summary, with the memory that the run left, reports a conclusion: everything but the
number of cycles is that of the conclusion. -/
structure Summary.Reports (summary : Summary) (memory : Bus.Memory) (c : Conclusion) : Prop where
  verdict : summary.verdict = c.verdict
  error : summary.error = c.error
  results : summary.results.toList = c.machine.results
  transactions : summary.transactions = c.machine.transactions
  memory : memory.atomic = c.machine.memory

/-- Two summaries that differ in the number of cycles at most. -/
structure Summary.Agrees (s s' : Summary) : Prop where
  verdict : s.verdict = s'.verdict
  error : s.error = s'.error
  results : s.results = s'.results
  transactions : s.transactions = s'.transactions

/-- Runs that report one conclusion agree, and leave the same memory. -/
theorem Summary.Reports.agrees {s s' : Summary} {memory memory' : Bus.Memory} {c : Conclusion}
    (h : s.Reports memory c) (h' : s'.Reports memory' c) :
    s.Agrees s' ∧ memory.atomic = memory'.atomic := by
  have hresults : s.results = s'.results := Array.toList_inj.mp (h.results.trans h'.results.symm)
  exact ⟨⟨h.verdict.trans h'.verdict.symm, h.error.trans h'.error.symm, hresults,
    h.transactions.trans h'.transactions.symm⟩, h.memory.trans h'.memory.symm⟩

/-- A tally grows by the value that is reported. -/
theorem Tally.toList_results_add (tally : Tally) (report : Report) :
    (tally.add report).results.toList = tally.results.toList ++ report.result.toList := by
  rw [Tally.add]
  cases report.result <;> simp

section

variable {σ : Type} {cycle : σ → σ × Report}

/-- How a cycle leaves a system that had reported `results`: its run has ended in `E`, or it is
still in `Inv`, both with the values that are reported by then. -/
def Advances (E : List ReadResult → Verdict → σ → Prop) (Inv : List ReadResult → σ → Prop)
    (results : List ReadResult) (after : σ × Report) : Prop :=
  (∃ verdict, after.2.status = .ended verdict ∧
    E (results ++ after.2.result.toList) verdict after.1) ∨
  (after.2.status.isTerminal = false ∧ Inv (results ++ after.2.result.toList) after.1)

/-- **What every cycle keeps holds at the end**: `Inv` is kept by every cycle that does not end a
run, and leads to `E` in one that does. Induction on the number of cycles. -/
theorem clock_ended {Inv : List ReadResult → σ → Prop}
    {E : List ReadResult → Verdict → σ → Prop}
    (hcycle : ∀ results s, Inv results s → Advances E Inv results (cycle s))
    {n : Nat} {tally tally' : Tally} {s s' : σ} {verdict : Verdict}
    (h : clock cycle n tally s = (s', some (verdict, tally')))
    (hinv : Inv tally.results.toList s) : E tally'.results.toList verdict s' := by
  induction n generalizing tally s with
  | zero => cases h
  | succ n ih =>
      rcases hcycle _ _ hinv with ⟨verdict', hstatus, hend⟩ | ⟨hopen, hinv'⟩
      · rw [clock_of_ended hstatus] at h
        cases h
        rw [Tally.toList_results_add]
        exact hend
      · rw [clock_of_not_isTerminal hopen] at h
        rw [← Tally.toList_results_add] at hinv'
        exact ih h hinv'

/-- A run that is reported has ended, and its summary is made of what holds then. -/
theorem complete_ended {engine : σ → Engine} {Inv : List ReadResult → σ → Prop}
    {E : List ReadResult → Verdict → σ → Prop}
    (hcycle : ∀ results s, Inv results s → Advances E Inv results (cycle s))
    {s : σ} {summary : Summary} (hinv : Inv [] s)
    (h : (complete cycle engine s).1 = .ok summary) :
    ∃ verdict tally, E tally.results.toList verdict (complete cycle engine s).2 ∧
      summary = summarize (engine (complete cycle engine s).2) verdict tally := by
  unfold complete at h ⊢
  dsimp only at h ⊢
  rw [drive_new] at h ⊢
  rcases hd : clock cycle (max (engine s).options.maxCycles 1) {} s with
    ⟨s', _ | ⟨verdict, tally⟩⟩
  · rw [hd] at h
    cases h
  · rw [hd] at h
    cases h
    exact ⟨verdict, tally, clock_ended hcycle hd hinv, rfl⟩

/-- **A run reports what it was underway to.** -/
theorem complete_reports {engine : σ → Engine} {memory : σ → Bus.Memory}
    {Inv : List ReadResult → σ → Prop} {C : Conclusion → Prop}
    (hcycle : ∀ results s, Inv results s →
      Advances (fun results verdict s => (engine s).Concluded (memory s) results verdict C) Inv
        results (cycle s))
    {s : σ} {summary : Summary} (hinv : Inv [] s)
    (h : (complete cycle engine s).1 = .ok summary) :
    ∃ c, C c ∧ summary.Reports (memory (complete cycle engine s).2) c := by
  obtain ⟨verdict, tally, ⟨m, hc, hissued, hmemory, hresults⟩, rfl⟩ :=
    complete_ended hcycle hinv h
  exact ⟨_, hc, rfl, rfl, hresults.symm, hissued, hmemory.symm⟩

end

end BusScript.Run
