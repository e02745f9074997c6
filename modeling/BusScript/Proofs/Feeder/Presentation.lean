import BusScript.Feeder.Presentation
import BusScript.Proofs.Engine.Tracking

/-!
# Presenting Words to an Engine on Its Way

Both feeders present what they hold through `Feeder.present`. A cycle in which they do so either
goes on, with what is left of the held word in front of the words to come, or ends the run with
a conclusion.

## Main results

* `Engine.Underway.present` — one cycle of a feeder against a memory target.
-/

namespace BusScript

namespace Feeder

/-- Unless the run has ended, what is left of a word is what was not taken of it. -/
theorem remainder?_eq_leftover? {report : Report} (h : report.status.isTerminal = false)
    (w : Command.Word) : remainder? w report = w.leftover? report.consumed := by
  rw [remainder?, Command.Word.leftover?]
  cases hdata : w.isData with
  | false => simp
  | true => simp [h]

variable {e : Engine} {held : Option Command.Word} {answer : Bus.Response}

/-- A presentation, field by field: a word that is held no more has been spent. -/
theorem present_eq (e : Engine) (held : Option Command.Word) (answer : Bus.Response) :
    present e held answer =
      ⟨(e.step (held.getD .idle) answer).1, (e.step (held.getD .idle) answer).2,
        held.bind (remainder? · (e.step (held.getD .idle) answer).2),
        (held.bind (remainder? · (e.step (held.getD .idle) answer).2)).elim held
          fun _ => none⟩ := by
  rw [present]
  cases held with
  | none => rfl
  | some w =>
      simp only [Option.getD_some, Option.bind_some]
      cases remainder? w (e.step w answer).2 <;> rfl

/-- The engine makes one cycle with the held word, or an idle one. -/
theorem present_step (e : Engine) (held : Option Command.Word) (answer : Bus.Response) :
    ((present e held answer).engine, (present e held answer).report) =
      e.step (held.getD .idle) answer := by
  rw [present_eq]

/-- The report tells the status of the engine. -/
theorem status_present (e : Engine) (held : Option Command.Word) (answer : Bus.Response) :
    (present e held answer).report.status = (present e held answer).engine.status := by
  rw [present_eq]
  rfl

/-- What is still held after a cycle that did not end the run. -/
theorem held_present (h : (present e held answer).report.status.isTerminal = false) :
    (present e held answer).held =
      held.bind (·.leftover? (present e held answer).report.consumed) := by
  rw [present_eq] at h ⊢
  simp only [remainder?_eq_leftover? h]

/-- The held word has been spent if it is not held any more. -/
theorem spent_present (e : Engine) (held : Option Command.Word) (answer : Bus.Response) :
    (present e held answer).spent =
      (present e held answer).held.elim held fun _ => none := by
  rw [present_eq]

end Feeder

namespace Engine

/-- An engine in the middle of a run against a memory, on its way to one of the conclusions `C`:
`words` are still to be presented and `results` have been reported. -/
def Underway (e : Engine) (memory : Bus.Memory) (words : List Command.Word)
    (results : List ReadResult) (C : Conclusion → Prop) : Prop :=
  ∃ m coming, e.Tracks m words coming C ∧ m.memory = memory.atomic ∧ m.results = results ∧
    ∀ verdict, e.stage ≠ .ended verdict

/-- An engine whose run has just ended with one of the conclusions `C`. -/
def Concluded (e : Engine) (memory : Bus.Memory) (results : List ReadResult)
    (verdict : Verdict) (C : Conclusion → Prop) : Prop :=
  ∃ m, C ⟨verdict, if verdict = .completed then none else e.lastError, m⟩ ∧
    e.bus.issued = m.transactions ∧ m.memory = memory.atomic ∧ m.results = results

/-- A new engine is underway to what may become of the bytes in the words. -/
theorem underway_new {options : Options} {words : List Command.Word} {bytes : List Byte}
    (memory : Bus.Memory) (h : Command.Framed words bytes) :
    (new options).Underway memory words []
      ((Machine.initial options memory.atomic).Concludes options.stride bytes) := by
  refine ⟨_, bytes, tracks_new memory.atomic h, rfl, rfl, ?_⟩
  rintro verdict ⟨⟩

/-- **One cycle of a feeder** against a memory target: the run ends with one of the conclusions,
or it goes on with the words that are left. -/
theorem Underway.present {e : Engine} {memory : Bus.Memory} {held : Option Command.Word}
    {words : List Command.Word} {results : List ReadResult} {C : Conclusion → Prop}
    {p : Feeder.Presentation} (h : e.Underway memory (held.toList ++ words) results C)
    (hp : Feeder.present e held (memory.respond e.request).1 = p) :
    (∃ verdict, p.report.status = .ended verdict ∧
      p.engine.Concluded (memory.respond e.request).2 (results ++ p.report.result.toList)
        verdict C) ∨
    (p.report.status.isTerminal = false ∧
      p.engine.Underway (memory.respond e.request).2 (p.held.toList ++ words)
        (results ++ p.report.result.toList) C) := by
  obtain ⟨m, coming, htracks, hmemory, rfl, hrun⟩ := h
  obtain ⟨m', coming', hstep, hmemory', hresults⟩ := htracks.step hrun hmemory
  have hpair := Feeder.present_step e held (memory.respond e.request).1
  rw [← hpair, hp] at hstep hresults
  have hstatus := Feeder.status_present e held (memory.respond e.request).1
  rw [hp, status] at hstatus
  by_cases hend : ∃ verdict, p.engine.stage = .ended verdict
  · obtain ⟨verdict, hs⟩ := hend
    obtain ⟨hc, hissued⟩ := hstep.conclusion hs
    exact .inl ⟨verdict, by rw [hstatus, hs]; rfl, m', hc, hissued, hmemory', hresults⟩
  · have hopen : p.report.status.isTerminal = false := by
      rw [hstatus]
      cases hs : p.engine.stage with
      | ended verdict => exact absurd ⟨verdict, hs⟩ hend
      | idle | header | executing a | completing | draining verdict => rfl
    have hheld : p.held = held.bind (·.leftover? p.report.consumed) := by
      rw [← hp] at hopen ⊢
      exact Feeder.held_present hopen
    refine .inr ⟨hopen, m', coming', ?_, hmemory', hresults, ?_⟩
    · rw [hheld]
      exact hstep
    · intro verdict hs
      exact hend ⟨verdict, hs⟩

end Engine

end BusScript
