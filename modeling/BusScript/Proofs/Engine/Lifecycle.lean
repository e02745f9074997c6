import BusScript.Proofs.Engine.Session
import Mathlib.Logic.ExistsUnique

/-!
# The Life Cycle of Runs

What an engine reports from cycle to cycle shows where one run ends and the next begins. A script
that is running goes on until the engine reports how it ended. While none is running the engine
is at rest, and the word of a cycle alone decides what the cycle reports: nothing, the beginning
of a run, or an error for a word that needs a running script or cannot be read at all.

## Main results

* `Engine.status_step_of_running`, `Engine.Sound.status_step` — what a cycle reports while a
  script is running, and while none is.
* `Session.status_lifecycle` — how the reports of a session follow one another, and that every
  start is answered once before the next.
-/

namespace BusScript

/-- What an engine at rest reports of a word. -/
def Status.ofWord (w : Command.Word) : Status :=
  match w.decode with
  | .ok .idle => .idle
  | .ok (.start _) => .running
  | .ok (.data _ _) | .error _ => .ended .errored

namespace Status

variable {w : Command.Word}

/-- Only a start begins a run. -/
theorem ofWord_eq_running_iff :
    ofWord w = .running ↔ ∃ clear, w.decode = .ok (.start clear) := by
  rw [ofWord]
  split <;> simp [*]

/-- Bytes that come to no script, and words that cannot be read, are errors. -/
theorem ofWord_eq_errored_iff :
    ofWord w = .ended .errored ↔
      (∃ p last, w.decode = .ok (.data p last)) ∨ ∃ error, w.decode = .error error := by
  rw [ofWord]
  split <;> simp [*]

/-- No word alone completes a run. -/
theorem ofWord_cases (w : Command.Word) :
    ofWord w = .idle ∨ ofWord w = .running ∨ ofWord w = .ended .errored := by
  rw [ofWord]
  split
  · exact .inl rfl
  · exact .inr (.inl rfl)
  · exact .inr (.inr rfl)
  · exact .inr (.inr rfl)

end Status

namespace Engine

variable {e : Engine}

/-! ### While a script is running -/

/-- Ending a run does not forget it yet. -/
theorem stage_finish_ne_idle (e : Engine) (verdict : Verdict) (error : Option RunError) :
    (e.finish verdict error).stage ≠ .idle := by
  rcases e.stage_finish verdict error with hs | hs
  · rw [hs]
    rintro ⟨⟩
  · rw [hs]
    rintro ⟨⟩

/-- A retired transaction takes the run on, or ends it. -/
theorem stage_retire_ne_idle (h : e.stage ≠ .idle) (t : Bus.Transaction)
    (outcome : Bus.Outcome) : (e.retire t outcome).1.stage ≠ .idle := by
  have htransfer : ∀ a x, afterTransfer a x ≠ .idle := by
    intro a x
    rw [afterTransfer]
    split <;> rintro ⟨⟩
  unfold retire
  split
  · rintro ⟨⟩
  · exact stage_finish_ne_idle _ _ _
  · exact htransfer _ _
  · exact htransfer _ _
  · split
    · rintro ⟨⟩
    · split
      · exact stage_finish_ne_idle _ _ _
      · rintro ⟨⟩
  · exact h

/-- So does the bus when it moves on. -/
theorem stage_settle_ne_idle (h : e.stage ≠ .idle) (answer : Bus.Response) :
    (e.settle answer).1.stage ≠ .idle := by
  rcases e.settle_cases answer with ⟨bus, hx, -⟩ | ⟨t, outcome, -, -, hx⟩
  · rw [hx]
    exact h
  · rw [hx]
    exact stage_retire_ne_idle (e := e.released) h t outcome

/-- No word brings a running engine to rest. -/
theorem stage_accept_ne_idle (h : e.stage ≠ .idle) (word : Command.Word) :
    (e.accept word).1.stage ≠ .idle := by
  rcases e.accept_cases word with ⟨hx, -⟩ | ⟨error, hx⟩ | ⟨clear, hs, -, -⟩ |
    ⟨p, last, -, -, hx⟩
  · rw [hx]
    exact h
  · rw [hx]
    exact stage_finish_ne_idle _ _ _
  · exact absurd hs h
  · rw [hx]
    exact h

/-- Nor does reading a header. -/
theorem stage_readHeader_ne_idle (h : e.stage ≠ .idle) : e.readHeader.stage ≠ .idle := by
  rcases e.readHeader_cases with ⟨-, -, hx⟩ | ⟨opcode, operand, rest, -, hx⟩ | ⟨b, -, -, hx⟩ |
    ⟨-, -, hx⟩
  · rw [hx]
    rintro ⟨⟩
  · rcases hx with ⟨error, -, hx⟩ | ⟨target, value, -, hx⟩ | ⟨header, a, -, -, hx⟩
    · rw [hx]
      exact stage_finish_ne_idle _ _ _
    · rw [hx]
      exact h
    · rw [hx]
      rintro ⟨⟩
  · rw [hx]
    exact stage_finish_ne_idle _ _ _
  · rw [hx]
    exact h

/-- Nor does moving an operation on. -/
theorem stage_execute_ne_idle (h : e.stage ≠ .idle) (a : Activity) :
    (e.execute a).stage ≠ .idle := by
  rcases e.execute_cases a with ⟨-, -, hx⟩ | ⟨hx, -⟩ | ⟨-, hx⟩
  · rw [hx]
    exact stage_finish_ne_idle _ _ _
  · rw [hx]
    exact h
  · rcases hx with ⟨t, -, -, hx⟩ | ⟨t, -, -, -, hx⟩ | ⟨p, -, -, hx⟩ | ⟨p, -, -, hx⟩ <;>
      rw [hx] <;> rintro ⟨⟩

/-- Nor does any decision of a cycle. -/
theorem stage_act_ne_idle (h : e.stage ≠ .idle) : e.act.stage ≠ .idle := by
  rw [act]
  cases hs : e.stage with
  | header => exact stage_readHeader_ne_idle h
  | executing a => exact stage_execute_ne_idle h a
  | completing => exact stage_finish_ne_idle _ _ _
  | idle | draining verdict | ended verdict => exact h

/-- An engine reports rest only at rest. -/
theorem status_eq_idle_iff : e.status = .idle ↔ e.stage = .idle := by
  rw [status]
  cases e.stage <;> simp [Stage.status]

/-- **A running script goes on or ends**, whatever is presented and answered. -/
theorem status_step_of_running (h : e.status = .running) (word : Command.Word)
    (answer : Bus.Response) : (e.step word answer).1.status ≠ .idle := by
  have hrest : e.rest.stage ≠ .idle := by
    rw [rest]
    rw [status] at h
    cases hs : e.stage <;> simp [hs, Stage.status] at h ⊢
  rw [Ne, status_eq_idle_iff]
  exact stage_act_ne_idle (stage_accept_ne_idle (stage_settle_ne_idle hrest answer) word)

/-! ### While none is running -/

/-- An engine that is not running is at rest when the next cycle begins. -/
theorem stage_rest (h : e.status ≠ .running) : e.rest.stage = .idle := by
  rw [rest]
  rw [status] at h
  cases hs : e.stage <;> simp [hs, Stage.status] at h ⊢

/-- A word presented to an engine at rest, with nothing outstanding. A start finds no bytes that
it could act on, so the run goes on beyond its first cycle. -/
theorem status_accept_act (hs : e.stage = .idle) (hout : e.bus.outstanding? = none)
    (word : Command.Word) : (e.accept word).1.act.status = Status.ofWord word := by
  have hidle : e.bus.isIdle = true := Bus.Master.isIdle_eq_true_iff.mpr hout
  have hfail : ∀ error, (e.fail error).act.status = .ended .errored := by
    intro error
    simp [fail, finish, hidle, act, status, Stage.status]
  rw [accept, hs, Status.ofWord]
  cases hd : word.decode with
  | error error => exact hfail _
  | ok command =>
      cases command with
      | idle => simp [obey, act, status, hs, Stage.status]
      | start clear =>
          cases clear <;>
            simp [obey, hs, act, readHeader, Intake.reset, Intake.pop?, status, Stage.status]
      | data p last =>
          simp only [obey, hs]
          exact hfail _

/-- A start that is presented while no script is running leaves an engine that awaits a header, with
an empty input. -/
theorem Sound.deciding_start (h : e.Sound) (hrest : e.status ≠ .running) {clear : Bool}
    {word : Command.Word} (hw : word.decode = .ok (.start clear)) (answer : Bus.Response) :
    e.deciding word answer = { e.rest with
      registers := if clear then .initial e.options else e.registers
      lastError := if clear then none else e.lastError
      intake := e.rest.intake.reset
      stage := .header } := by
  have hs := stage_rest hrest
  have hout : e.rest.bus.outstanding? = none := h.rest.fits_of hs
  rw [deciding, settled, settle_of_outstanding_eq_none hout answer, Engine.accept, hs, hw]
  simp only [obey, hs]
  cases clear <;> rfl

/-- **While no script is running, the word of a cycle decides what it reports.** -/
theorem Sound.status_step (h : e.Sound) (hrest : e.status ≠ .running) (word : Command.Word)
    (answer : Bus.Response) : (e.step word answer).1.status = Status.ofWord word := by
  have hs := stage_rest hrest
  have hout : e.rest.bus.outstanding? = none := h.rest.fits_of hs
  have hsettle := settle_of_outstanding_eq_none hout answer
  have hdone := status_accept_act hs hout word
  rw [Engine.step, hsettle]
  exact hdone

end Engine

namespace Session

variable {τ : Type} [Bus.Target τ]

/-! ### Whole sessions -/

/-- A start is accepted in a cycle: no script is running, and the word is a start. -/
def Starts (s : Session τ) (t : Nat) : Prop :=
  s.status t ≠ .running ∧ ∃ clear, (s.words t).decode = .ok (.start clear)

/-- A run ends in a cycle: a script is running, and the cycle reports how it ended. -/
def Ends (s : Session τ) (t : Nat) : Prop :=
  s.status t = .running ∧ (s.status (t + 1)).isTerminal = true

/-- How the reports of a session follow one another. -/
structure Lifecycle (s : Session τ) : Prop where
  /-- A running script goes on or ends. -/
  after_running : ∀ t, s.status t = .running →
    s.status (t + 1) = .running ∨ ∃ verdict, s.status (t + 1) = .ended verdict
  /-- After rest and after the end of a run come rest, the beginning of a run or an error. -/
  after_rest : ∀ t, s.status t ≠ .running →
    s.status (t + 1) = .idle ∨ s.status (t + 1) = .running ∨ s.status (t + 1) = .ended .errored
  /-- A run begins with a start, and with every one that is presented while none is running. -/
  running_iff : ∀ t, s.status t ≠ .running →
    (s.status (t + 1) = .running ↔ ∃ clear, (s.words t).decode = .ok (.start clear))
  /-- While no script is running, exactly bytes and words that cannot be read are errors. -/
  errored_iff : ∀ t, s.status t ≠ .running →
    (s.status (t + 1) = .ended .errored ↔
      (∃ p last, (s.words t).decode = .ok (.data p last)) ∨
        ∃ error, (s.words t).decode = .error error)
  /-- Only a running script completes, or fails in a poll. -/
  running_of_ended : ∀ t verdict, s.status (t + 1) = .ended verdict → verdict ≠ .errored →
    s.status t = .running

variable {s : Session τ}

/-- The reports of a session of a sound engine. -/
theorem lifecycle (hsound : s.engine.Sound) : s.Lifecycle := by
  have hword : ∀ t, s.status t ≠ .running → s.status (t + 1) = Status.ofWord (s.words t) := by
    intro t h
    rw [status_eq] at h ⊢
    exact (s.sound hsound t).status_step h _ _
  refine ⟨?_, ?_, ?_, ?_, ?_⟩
  · intro t h
    rw [status_eq] at h
    have hne : s.status (t + 1) ≠ .idle := by
      rw [status_eq]
      exact Engine.status_step_of_running h _ _
    cases hnext : s.status (t + 1) with
    | idle => exact absurd hnext hne
    | running => exact .inl rfl
    | ended verdict => exact .inr ⟨verdict, rfl⟩
  · intro t h
    rw [hword t h]
    exact Status.ofWord_cases _
  · intro t h
    rw [hword t h]
    exact Status.ofWord_eq_running_iff
  · intro t h
    rw [hword t h]
    exact Status.ofWord_eq_errored_iff
  · intro t verdict hended hverdict
    cases hnow : s.status t with
    | running => rfl
    | idle | ended verdict' =>
        have hcases := Status.ofWord_cases (s.words t)
        rw [← hword t (by rw [hnow]; rintro ⟨⟩), hended] at hcases
        simp [hverdict] at hcases

/-- A run that does not end goes on: induction on the cycles since it was running. -/
theorem Lifecycle.running_of_not_ends (h : s.Lifecycle) {t : Nat} (hrun : s.status t = .running)
    (n : Nat) (hon : ∀ k < n, ¬ s.Ends (t + k)) : s.status (t + n) = .running := by
  induction n with
  | zero => exact hrun
  | succ n ih =>
      have hnow := ih fun k hk => hon k (Nat.lt_succ_of_lt hk)
      rcases h.after_running _ hnow with hnext | ⟨verdict, hnext⟩
      · exact hnext
      · have hend : s.Ends (t + n) := ⟨hnow, by rw [hnext]; rfl⟩
        exact absurd hend (hon n (Nat.lt_succ_self n))

/-- Without a start nothing runs: induction on the cycles since nothing was running. -/
theorem Lifecycle.not_running_of_not_starts (h : s.Lifecycle) {t : Nat}
    (hrest : s.status t ≠ .running) (n : Nat) (hnone : ∀ k < n, ¬ s.Starts (t + k)) :
    s.status (t + n) ≠ .running := by
  induction n with
  | zero => exact hrest
  | succ n ih =>
      have hnow := ih fun k hk => hnone k (Nat.lt_succ_of_lt hk)
      intro hnext
      exact hnone n (Nat.lt_succ_self n) ⟨hnow, (h.running_iff _ hnow).mp hnext⟩

/-- Between a start and the next one, the run ends exactly once. -/
theorem Lifecycle.existsUnique_ends (h : s.Lifecycle) {t t' : Nat} (hstart : s.Starts t)
    (hnext : s.Starts t') (hlt : t < t') (hnone : ∀ k, t < k → k < t' → ¬ s.Starts k) :
    ∃! k, t < k ∧ k < t' ∧ s.Ends k := by
  have hrun : s.status (t + 1) = .running := (h.running_iff t hstart.1).mpr hstart.2
  -- no run ends twice: after its end nothing runs before the next start
  have honce : ∀ k k', t < k → k < k' → k' < t' → s.Ends k → ¬ s.Ends k' := by
    intro k k' hk hkk' hk' hend hend'
    have hrest : s.status (k + 1) ≠ .running := by
      intro hsame
      have hterminal := hend.2
      rw [hsame] at hterminal
      cases hterminal
    have hstill := h.not_running_of_not_starts hrest (k' - (k + 1))
      fun j hj => hnone _ (by omega) (by omega)
    rw [show k + 1 + (k' - (k + 1)) = k' by omega] at hstill
    exact hstill hend'.1
  have hsome : ∃ k, t < k ∧ k < t' ∧ s.Ends k := by
    apply Classical.byContradiction
    intro hno
    have hstill := h.running_of_not_ends hrun (t' - (t + 1))
      fun j hj hend => hno ⟨_, by omega, by omega, hend⟩
    rw [show t + 1 + (t' - (t + 1)) = t' by omega] at hstill
    exact hnext.1 hstill
  obtain ⟨k, hk, hk', hend⟩ := hsome
  refine ⟨k, ⟨hk, hk', hend⟩, ?_⟩
  rintro j ⟨hj, hj', hend'⟩
  rcases Nat.lt_trichotomy j k with hjk | rfl | hkj
  · exact absurd hend (honce j k hj hjk hk' hend')
  · rfl
  · exact absurd hend' (honce k j hk hkj hj' hend)

/-- **The life cycle of runs.** In every session of a new engine the reports follow one another
as `Lifecycle` says, and between one start that is accepted and the next, exactly one cycle ends
the run. Errors that are reported while no script is running answer no start. -/
theorem status_lifecycle (options : Options) (target : τ) (words : Nat → Command.Word) :
    (new options target words).Lifecycle ∧
    ∀ t t', (new options target words).Starts t → (new options target words).Starts t' → t < t' →
      (∀ k, t < k → k < t' → ¬ (new options target words).Starts k) →
      ∃! k, t < k ∧ k < t' ∧ (new options target words).Ends k := by
  have h : (new options target words).Lifecycle := lifecycle (Engine.sound_new options)
  refine ⟨h, ?_⟩
  intro t t' hstart hnext hlt hnone
  exact h.existsUnique_ends hstart hnext hlt hnone

end Session

end BusScript
