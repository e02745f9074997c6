import BusScript.Proofs.Engine.Failures
import BusScript.Proofs.Engine.RegisterHistory

/-!
# Which Failure Is Reported

A run that has failed is blamed on the first of all the failures since its start, however many come
after it in the same cycle or while the run drains. An engine keeps that error beyond the run: until
the next failure or a clearing start, across any number of runs that complete.

## Main results

* `Session.bears_since` — a run bears what has gone wrong since its start.
* `Session.attribution` — which error is reported, and when the one that is kept changes.
-/

namespace BusScript

namespace Session

variable {τ : Type} [Bus.Target τ]

/-! ### Whole sessions -/

/-- The error that is kept before a cycle. -/
def lastError (s : Session τ) (t : Nat) : Option RunError := (s.engineAt t).lastError

/-- What goes wrong in a cycle. -/
def failures (s : Session τ) (t : Nat) : List RunError :=
  (s.engineAt t).failures (s.words t) (s.answer t)

/-- What goes wrong from one cycle up to another, in order. -/
def failuresIn (s : Session τ) (t₁ t₂ : Nat) : List RunError :=
  (List.range' t₁ (t₂ - t₁)).flatMap s.failures

/-- The run that was started in cycle `t₀` is in progress before cycle `t`. -/
structure Runs (s : Session τ) (t₀ t : Nat) : Prop where
  starts : s.Starts t₀
  lt : t₀ < t
  running : ∀ k, t₀ < k → k ≤ t → s.status k = .running

/-- Which error is reported, and what becomes of it. -/
structure Attribution (s : Session τ) : Prop where
  /-- A run whose poll has failed is blamed on a poll that has given up. -/
  pollFailed : ∀ t, s.status (t + 1) = .ended .pollFailed →
    ∃ address attempts, s.lastError (t + 1) = some (.pollExhausted address attempts)
  /-- Any other failure is blamed on something else. -/
  errored : ∀ t, s.status (t + 1) = .ended .errored →
    ∃ error, s.lastError (t + 1) = some error ∧
      ∀ address attempts, error ≠ .pollExhausted address attempts
  /-- A run that has failed is blamed on the first failure since its start. -/
  first : ∀ t verdict, s.status t = .running → s.status (t + 1) = .ended verdict →
    verdict ≠ .completed →
    ∃ t₀ error, s.Runs t₀ t ∧ (s.failuresIn t₀ (t + 1)).head? = some error ∧
      s.lastError (t + 1) = some error
  /-- What fails while no script is running is the word of the cycle. -/
  unstarted : ∀ t verdict, s.status t ≠ .running → s.status (t + 1) = .ended verdict →
    (∃ error, (s.words t).decode = .error error ∧
      s.lastError (t + 1) = some (.undecodable error)) ∨
    (∃ p last, (s.words t).decode = .ok (.data p last) ∧ s.lastError (t + 1) = some .notStarted)
  /-- The first failure of a cycle is noted, unless the run has failed before. -/
  noted : ∀ t error more, (s.engineAt t).isDraining = false → s.failures t = error :: more →
    s.lastError (t + 1) = some error
  /-- A clearing start that is accepted clears the error. -/
  cleared : ∀ t, s.Clears t → s.lastError (t + 1) = none
  /-- Nothing else changes it. -/
  kept : ∀ t, ¬ s.Clears t → s.failures t = [] ∨ (s.engineAt t).isDraining = true →
    s.lastError (t + 1) = s.lastError t
  /-- Any other start leaves it. -/
  started : ∀ t, s.status t ≠ .running → (s.words t).decode = .ok (.start false) →
    s.lastError (t + 1) = s.lastError t
  /-- So does a run that completes. -/
  completed : ∀ t, s.status (t + 1) = .ended .completed → s.lastError (t + 1) = s.lastError t

variable {s : Session τ}

/-- One more cycle adds what goes wrong in it. -/
theorem failuresIn_succ (s : Session τ) {t₁ t₂ : Nat} (h : t₁ ≤ t₂) :
    s.failuresIn t₁ (t₂ + 1) = s.failuresIn t₁ t₂ ++ s.failures t₂ := by
  have hlength : t₂ + 1 - t₁ = t₂ - t₁ + 1 := by omega
  have hlast : t₁ + (t₂ - t₁) = t₂ := by omega
  rw [failuresIn, failuresIn, hlength, List.range'_1_concat, hlast, List.flatMap_append,
    List.flatMap_singleton]

/-- Every script that is running was started. -/
theorem exists_runs (h : s.Lifecycle) (hnew : s.status 0 ≠ .running) {t : Nat}
    (hrun : s.status t = .running) : ∃ t₀, s.Runs t₀ t := by
  induction t with
  | zero => exact absurd hrun hnew
  | succ t ih =>
      by_cases hbefore : s.status t = .running
      · obtain ⟨t₀, hstarts, hlt, hrunning⟩ := ih hbefore
        refine ⟨t₀, hstarts, by omega, ?_⟩
        intro k hk hle
        rcases Nat.lt_or_eq_of_le hle with hlt' | rfl
        · exact hrunning k hk (by omega)
        · exact hrun
      · refine ⟨t, ⟨hbefore, (h.running_iff t hbefore).mp hrun⟩, Nat.lt_succ_self t, ?_⟩
        intro k hk hle
        obtain rfl : k = t + 1 := by omega
        exact hrun

/-- An engine that is not running does not drain. -/
theorem isDraining_of_not_running {t : Nat} (h : s.status t ≠ .running) :
    (s.engineAt t).isDraining = false := by
  rw [status_eq, Engine.status] at h
  rw [Engine.isDraining]
  cases hs : (s.engineAt t).stage with
  | draining verdict =>
      rw [hs] at h
      exact absurd rfl h
  | idle | header | executing a | completing | ended verdict => rfl

/-- One cycle of an engine that has not failed. -/
theorem bears_succ (hsound : s.engine.Sound) {t : Nat}
    (hflows : (s.engineAt t).isDraining = false) : (s.engineAt (t + 1)).Bears (s.failures t) :=
  ((s.sound hsound t).bears_step hflows (s.words t) (s.answer t)).1

/-- **A run bears what has gone wrong since its start**, up to the cycle that reports its end:
induction on the cycles. -/
theorem bears_since (hsound : s.engine.Sound) {t₀ t : Nat} (h : s.Runs t₀ t) :
    (s.engineAt (t + 1)).Bears (s.failuresIn t₀ (t + 1)) := by
  suffices hall : ∀ n, t₀ + n ≤ t →
      (s.engineAt (t₀ + n + 1)).Bears (s.failuresIn t₀ (t₀ + n + 1)) by
    have hlt := h.lt
    have hdone := hall (t - t₀) (by omega)
    rwa [show t₀ + (t - t₀) = t by omega] at hdone
  intro n
  induction n with
  | zero =>
      intro _
      have hnone : s.failuresIn t₀ t₀ = [] := by simp [failuresIn]
      rw [Nat.add_zero, failuresIn_succ s (Nat.le_refl t₀), hnone, List.nil_append]
      exact bears_succ hsound (isDraining_of_not_running h.starts.1)
  | succ n ih =>
      intro hn
      have hbefore := ih (by omega)
      have hrun := h.running (t₀ + n + 1) (by omega) hn
      rw [← Nat.add_assoc, failuresIn_succ s (by omega)]
      rcases hsince : s.failuresIn t₀ (t₀ + n + 1) with _ | ⟨error, more⟩
      · rw [hsince] at hbefore
        rw [List.nil_append]
        exact bears_succ hsound (Engine.Healthy.flows hbefore)
      · -- the run has failed before and is still in progress, so it drains
        rw [hsince] at hbefore
        have hfailed : (s.engineAt (t₀ + n + 1)).Failed error := hbefore
        have hdrains : (s.engineAt (t₀ + n + 1)).isDraining = true := by
          rw [status_eq, Engine.status] at hrun
          rcases hfailed.stage with hs | hs
          · rw [Engine.isDraining, hs]
          · rw [hs] at hrun
            cases hrun
        rw [engineAt_succ]
        exact hfailed.step hdrains _ _

/-- The error that is kept at the end of a run that has failed is the first of its failures, and the
verdict is that of the error. -/
theorem head_of_ended {t : Nat} {failures : List RunError} {verdict : Verdict}
    (h : (s.engineAt (t + 1)).Bears failures) (hended : s.status (t + 1) = .ended verdict)
    (hverdict : verdict ≠ .completed) :
    ∃ error, failures.head? = some error ∧ s.lastError (t + 1) = some error ∧
      verdict = error.verdict := by
  have hstage : (s.engineAt (t + 1)).stage = .ended verdict := by
    rw [status_eq, Engine.status] at hended
    cases hs : (s.engineAt (t + 1)).stage <;> rw [hs] at hended <;> cases hended
    rfl
  rcases failures with _ | ⟨error, more⟩
  · exact absurd (Engine.Healthy.completed h verdict hstage) hverdict
  · have hfailed : (s.engineAt (t + 1)).Failed error := h
    refine ⟨error, rfl, hfailed.lastError, ?_⟩
    rcases hfailed.stage with hs | hs
    · rw [hstage] at hs
      cases hs
    · rw [hstage] at hs
      cases hs
      rfl

/-- A cycle without a failure keeps the error, unless it clears it. -/
theorem lastError_of_nil (hsound : s.engine.Sound) {t : Nat} (hnil : s.failures t = [])
    (hflows : (s.engineAt t).isDraining = false) :
    (s.Clears t → s.lastError (t + 1) = none) ∧
      (¬ s.Clears t → s.lastError (t + 1) = s.lastError t) := by
  have hclears : s.Clears t ↔ (s.engineAt t).Forgets (s.words t) := by
    rw [Clears, status_eq]
    exact Iff.rfl
  rw [hclears]
  exact ((s.sound hsound t).bears_step hflows (s.words t) (s.answer t)).2 hnil

/-- A run that drains keeps the error. -/
theorem lastError_of_draining {t : Nat} (h : (s.engineAt t).isDraining = true) :
    s.lastError (t + 1) = s.lastError t := by
  rw [Engine.isDraining] at h
  split at h
  · next verdict hs => exact (Engine.step_of_draining hs (s.words t) (s.answer t)).1
  · cases h

/-- The word of a cycle is what fails in it while no script is running. -/
theorem lastError_of_unstarted (hsound : s.engine.Sound) {t : Nat} (hrest : s.status t ≠ .running)
    {error : RunError} (hword : (s.engineAt t).wordFailures (s.words t) = [error]) :
    s.lastError (t + 1) = some error := by
  have hbears := bears_succ hsound (isDraining_of_not_running hrest)
  rw [status_eq] at hrest
  rw [failures, Engine.failures, (s.sound hsound t).busFailures_eq_nil hrest, hword] at hbears
  exact Engine.Failed.lastError hbears

/-- A cycle keeps the error if nothing goes wrong in it, and if the run had failed before, unless it
clears it. -/
theorem lastError_of_not_clears (hsound : s.engine.Sound) {t : Nat} (hkeeps : ¬ s.Clears t)
    (h : s.failures t = [] ∨ (s.engineAt t).isDraining = true) :
    s.lastError (t + 1) = s.lastError t := by
  cases hdrains : (s.engineAt t).isDraining with
  | true => exact lastError_of_draining hdrains
  | false =>
      have hnil : s.failures t = [] := by
        refine h.resolve_right ?_
        rw [hdrains]
        exact Bool.false_ne_true
      exact (lastError_of_nil hsound hnil hdrains).2 hkeeps

/-- A run that completes has not failed, and nothing goes wrong in its last cycle. -/
theorem lastError_of_completed (hsound : s.engine.Sound) {t : Nat}
    (h : s.status (t + 1) = .ended .completed) : s.lastError (t + 1) = s.lastError t := by
  have hrun := (lifecycle hsound).running_of_ended t .completed h (by rintro ⟨⟩)
  refine lastError_of_not_clears hsound (fun hclears => hclears.1 hrun) ?_
  cases hdrains : (s.engineAt t).isDraining with
  | true => exact .inr rfl
  | false =>
      have hbears := bears_succ hsound hdrains
      rcases hfailures : s.failures t with _ | ⟨error, more⟩
      · exact .inl rfl
      · rw [hfailures] at hbears
        have hfailed : (s.engineAt (t + 1)).Failed error := hbears
        rw [status_eq, Engine.status] at h
        rcases hfailed.stage with hs | hs
        · rw [hs] at h
          cases h
        · rw [hs] at h
          exact absurd (Status.ended.inj h) error.verdict_ne_completed

/-- What fails while no script is running is the word of the cycle. -/
theorem lastError_of_not_running (hsound : s.engine.Sound) {t : Nat} {verdict : Verdict}
    (hrest : s.status t ≠ .running) (hended : s.status (t + 1) = .ended verdict) :
    (∃ error, (s.words t).decode = .error error ∧
      s.lastError (t + 1) = some (.undecodable error)) ∨
    ∃ p last, (s.words t).decode = .ok (.data p last) ∧ s.lastError (t + 1) = some .notStarted := by
  have hlife := lifecycle hsound
  have herrored : s.status (t + 1) = .ended .errored := by
    rcases hlife.after_rest t hrest with h | h | h
    · rw [h] at hended
      cases hended
    · rw [h] at hended
      cases hended
    · exact h
  have hidle : (s.engineAt t).status ≠ .running := by rwa [← status_eq]
  rcases (hlife.errored_iff t hrest).mp herrored with ⟨p, last, hw⟩ | ⟨error, hw⟩
  · refine .inr ⟨p, last, hw, lastError_of_unstarted hsound hrest ?_⟩
    rw [Engine.wordFailures, hw]
    exact if_neg hidle
  · refine .inl ⟨error, hw, lastError_of_unstarted hsound hrest ?_⟩
    rw [Engine.wordFailures, hw]

/-- The error at the end of a run that has failed is the first failure since its start. -/
theorem exists_first_failure (hsound : s.engine.Sound) (hnew : s.status 0 ≠ .running) {t : Nat}
    {verdict : Verdict} (hrun : s.status t = .running) (hended : s.status (t + 1) = .ended verdict)
    (hverdict : verdict ≠ .completed) :
    ∃ t₀ error, s.Runs t₀ t ∧ (s.failuresIn t₀ (t + 1)).head? = some error ∧
      s.lastError (t + 1) = some error ∧ verdict = error.verdict := by
  obtain ⟨t₀, hruns⟩ := exists_runs (lifecycle hsound) hnew hrun
  obtain ⟨error, hhead⟩ := head_of_ended (bears_since hsound hruns) hended hverdict
  exact ⟨t₀, error, hruns, hhead⟩

/-- Whether or not a script was running, a failure is reported with an error of its kind. -/
theorem exists_error (hsound : s.engine.Sound) (hnew : s.status 0 ≠ .running) {t : Nat}
    {verdict : Verdict} (hended : s.status (t + 1) = .ended verdict)
    (hverdict : verdict ≠ .completed) :
    ∃ error, s.lastError (t + 1) = some error ∧ verdict = error.verdict := by
  by_cases hrun : s.status t = .running
  · obtain ⟨t₀, error, -, -, herror⟩ := exists_first_failure hsound hnew hrun hended hverdict
    exact ⟨error, herror⟩
  · have hbears := bears_succ hsound (isDraining_of_not_running hrun)
    obtain ⟨error, -, herror⟩ := head_of_ended hbears hended hverdict
    exact ⟨error, herror⟩

/-- **Which error is reported**, over any number of runs of a new engine, whatever words are
presented and however the target answers. -/
theorem attribution (options : Options) (target : τ) (words : Nat → Command.Word) :
    (new options target words).Attribution := by
  generalize hs : new options target words = s
  have hsound : s.engine.Sound := hs ▸ Engine.sound_new options
  have hnew : s.status 0 ≠ .running := by
    rw [← hs]
    rintro ⟨⟩
  refine ⟨?_, ?_, ?_, ?_, ?_, ?_, ?_, ?_, ?_⟩
  · intro t hended
    obtain ⟨error, hlast, hverdict⟩ := exists_error hsound hnew hended (by rintro ⟨⟩)
    obtain ⟨address, attempts, rfl⟩ := RunError.verdict_eq_pollFailed_iff.mp hverdict.symm
    exact ⟨address, attempts, hlast⟩
  · intro t hended
    obtain ⟨error, hlast, hverdict⟩ := exists_error hsound hnew hended (by rintro ⟨⟩)
    refine ⟨error, hlast, ?_⟩
    rintro address attempts rfl
    cases hverdict
  · intro t verdict hrun hended hverdict
    obtain ⟨t₀, error, hruns, hhead, hlast, -⟩ :=
      exists_first_failure hsound hnew hrun hended hverdict
    exact ⟨t₀, error, hruns, hhead, hlast⟩
  · intro t verdict hrest hended
    exact lastError_of_not_running hsound hrest hended
  · intro t error more hflows hfailures
    have hbears := bears_succ hsound hflows
    rw [hfailures] at hbears
    exact Engine.Failed.lastError hbears
  · intro t hclears
    have hrest : (s.engineAt t).status ≠ .running := by
      rw [← status_eq]
      exact hclears.1
    have hnil := (s.sound hsound t).failures_start hrest hclears.2 (s.answer t)
    exact (lastError_of_nil hsound hnil (isDraining_of_not_running hclears.1)).1 hclears
  · intro t hkeeps h
    exact lastError_of_not_clears hsound hkeeps h
  · intro t hrest hw
    have hidle : (s.engineAt t).status ≠ .running := by rwa [← status_eq]
    refine lastError_of_not_clears hsound ?_
      (.inl ((s.sound hsound t).failures_start hidle hw (s.answer t)))
    rintro ⟨-, hclear⟩
    rw [hw] at hclear
    cases hclear
  · intro t hended
    exact lastError_of_completed hsound hended

end Session

end BusScript
