import BusScript.Bus.Playback
import BusScript.Proofs.Engine.Attribution
import BusScript.Proofs.Feeder.Conservation
import BusScript.Proofs.Run.Accounting

/-!
# Errors in Summaries

The summary of a run reads the error of the engine when the run has ended, and only if it has not
completed. By then the engine has an error of that run: a run does not fail without one, whatever
system the engine is part of (`Run.complete_error_iff`).

## Main results

* `Engine.Answerable.step` — an engine never has a failed run without an error.
* `failures_attributed` — errors belong to the runs that are reported with them.
-/

namespace BusScript

open Command (Word)

namespace Engine

variable {e : Engine} {word : Word} {answer : Bus.Response}

/-- Nothing has gone wrong with the run, or it has failed with an error. -/
def Answerable (e : Engine) : Prop := e.Healthy ∨ ∃ error, e.Failed error

theorem answerable_new (options : Options) : (new options).Answerable :=
  .inl ⟨rfl, by rintro verdict ⟨⟩⟩

/-- **An engine never has a failed run without an error**, whatever is presented and answered. -/
theorem Answerable.step (h : e.Answerable) (hsound : e.Sound) (word : Word)
    (answer : Bus.Response) : (e.step word answer).1.Answerable := by
  cases hdrains : e.isDraining with
  | true =>
      rcases h with hhealthy | ⟨error, hfailed⟩
      · rw [hhealthy.flows] at hdrains
        cases hdrains
      · exact .inr ⟨error, hfailed.step hdrains word answer⟩
  | false =>
      obtain ⟨hbears, -⟩ := hsound.bears_step hdrains word answer
      rcases hfailures : e.failures word answer with _ | ⟨error, more⟩
      · rw [hfailures] at hbears
        exact .inl hbears
      · rw [hfailures] at hbears
        exact .inr ⟨error, hbears⟩

/-- The summary of a run that has just ended has an error if the run has not completed. -/
theorem Answerable.error_iff (h : e.Answerable) {verdict : Verdict} (hs : e.stage = .ended verdict)
    (tally : Run.Tally) :
    (Run.summarize e verdict tally).error.isSome = true ↔ verdict ≠ .completed := by
  rw [Run.summarize]
  by_cases hverdict : verdict = .completed
  · rw [if_pos hverdict]
    constructor
    · rintro ⟨⟩
    · exact fun hne => absurd hverdict hne
  · rw [if_neg hverdict]
    rcases h with hhealthy | ⟨error, hfailed⟩
    · exact absurd (hhealthy.completed verdict hs) hverdict
    · rw [hfailed.lastError]
      exact ⟨fun _ => hverdict, fun _ => rfl⟩

end Engine

namespace Run

/-- **A summary has an error exactly if the run has not completed**, for every system whose cycles
are cycles of the engine in it. -/
theorem complete_error_iff {σ : Type} {cycle : σ → σ × Report} {engine : σ → Engine}
    (hcycle : ∀ s, ∃ word answer, (engine (cycle s).1, (cycle s).2) = (engine s).step word answer)
    {s : σ} {summary : Summary} {options : Options} (hnew : engine s = .new options)
    (h : (complete cycle engine s).1 = .ok summary) :
    summary.error.isSome = true ↔ summary.verdict ≠ .completed := by
  have hadvances : ∀ results s, (engine s).Sound ∧ (engine s).Answerable →
      Advances (fun _ verdict s => (engine s).stage = .ended verdict ∧ (engine s).Answerable)
        (fun _ s => (engine s).Sound ∧ (engine s).Answerable) results (cycle s) := by
    rintro results s ⟨hsound, hanswerable⟩
    obtain ⟨word, answer, hstep⟩ := hcycle s
    have hsound' := hsound.step word answer
    have hanswerable' := hanswerable.step hsound word answer
    have hstatus : ((engine s).step word answer).2.status =
        ((engine s).step word answer).1.stage.status := rfl
    rw [← hstep] at hsound' hanswerable' hstatus
    dsimp only at hsound' hanswerable' hstatus
    rw [Advances, hstatus]
    cases hs : (engine (cycle s).1).stage with
    | ended verdict => exact .inl ⟨verdict, rfl, rfl, hanswerable'⟩
    | idle | header | executing a | completing | draining verdict =>
        exact .inr ⟨rfl, hsound', hanswerable'⟩
  have hinv : (engine s).Sound ∧ (engine s).Answerable := by
    rw [hnew]
    exact ⟨Engine.sound_new options, Engine.answerable_new options⟩
  obtain ⟨verdict, tally, ⟨hs, hanswerable⟩, rfl⟩ := complete_ended hadvances hinv h
  exact hanswerable.error_iff hs tally

variable {τ : Type} [Bus.Target τ]

/-- A cycle of a client's system is a cycle of the engine in it. -/
theorem StreamSystem.exists_step (s : StreamSystem τ) :
    ∃ word answer, (s.cycle.1.engine, s.cycle.2) = s.engine.step word answer := by
  have hpresent := Feeder.present_step s.engine
    (if s.offer.isSome && s.feeder.isOpen then s.offer else s.feeder.held)
    (Bus.Target.respond s.target s.engine.request).1
  refine ⟨_, _, Eq.trans ?_ hpresent⟩
  unfold cycle
  dsimp only
  split <;> rfl

/-- A cycle of a store's system is a cycle of the engine in it. -/
theorem StoredSystem.exists_step (s : StoredSystem τ) :
    ∃ word answer, (s.cycle.1.engine, s.cycle.2) = s.engine.step word answer := by
  have hpresent := Feeder.present_step s.engine
    (((s.feeder.asked s.store s.request).arriving s.store).or s.feeder.held)
    (Bus.Target.respond s.target s.engine.request).1
  refine ⟨_, _, Eq.trans ?_ hpresent⟩
  have hengine := (s.feeder.present_step_eq s.store s.request
    (Bus.Target.respond s.target s.engine.request).1).1
  have hreport := s.feeder.report_step_eq s.store s.request
    (Bus.Target.respond s.target s.engine.request).1
  exact Prod.ext hengine hreport

end Run

/-- **Errors belong to the runs that are reported with them.** In every session of a new engine they
are attributed as `Session.Attribution` says; and the summary of a run of any words, or of any
stored script, has an error exactly if the run has not completed. -/
theorem failures_attributed {τ : Type} [Bus.Target τ] (options : Options) (target : τ) :
    (∀ words, (Session.new options target words).Attribution) ∧
    (∀ words idleGap summary, (runWords options target words idleGap).1 = .ok summary →
      (summary.error.isSome = true ↔ summary.verdict ≠ .completed)) ∧
    (∀ store address summary, (runStored options store target address).1 = .ok summary →
      (summary.error.isSome = true ↔ summary.verdict ≠ .completed)) := by
  refine ⟨Session.attribution options target, ?_, ?_⟩
  · intro words idleGap summary h
    exact Run.complete_error_iff Run.StreamSystem.exists_step rfl h
  · intro store address summary h
    exact Run.complete_error_iff Run.StoredSystem.exists_step rfl h

/-- Words that start a script and write the first of two bytes. While that is on the bus come a word
that cannot be read, and a start. -/
def Command.spoiled : Nat → Word := fun t =>
  [⟨0x0010000000000000⟩, ⟨0x001b000000aa40c4⟩, .idle, ⟨0x0038000000000000⟩,
    ⟨0x0010000000000000⟩].getD t .idle

/-- A target that lets the engine wait once, and then refuses the byte. -/
def Bus.Playback.refusing : Bus.Playback := ⟨[.wait, ⟨0, true, true⟩]⟩

/-- The refusal comes last and the start before it, so the run is blamed on the word that cannot be
read; and a run of two reads, of which the second fails, has that in its summary. -/
theorem failures_attributed_spoiled :
    (let s := Session.new default Bus.Playback.refusing Command.spoiled;
      s.status 5 = .running ∧ s.status 6 = .ended .errored ∧
        s.failuresIn 0 6 =
          [.undecodable (.malformedOpcode 7), .unexpectedStart, .busFault 0x40 true] ∧
        s.lastError 6 = some (.undecodable (.malformedOpcode 7)) ∧
        ∃ t₀ error, s.Runs t₀ 5 ∧ (s.failuresIn t₀ 6).head? = some error ∧
          s.lastError 6 = some error) ∧
    (∃ summary, (runWords {} Bus.Memory.failing Command.readPair 3).1 = .ok summary ∧
      summary.error = some (.busFault 5 false) ∧
      (summary.error.isSome = true ↔ summary.verdict ≠ .completed)) := by
  obtain ⟨hsessions, -⟩ := failures_attributed default Bus.Playback.refusing
  obtain ⟨-, hwords, -⟩ := failures_attributed {} Bus.Memory.failing
  have hfirst := (hsessions Command.spoiled).first 5 .errored rfl rfl (by rintro ⟨⟩)
  have hsent := runWords_readPair
  exact ⟨⟨rfl, rfl, rfl, rfl, hfirst⟩, _, hsent, rfl, hwords Command.readPair 3 _ hsent⟩

end BusScript
