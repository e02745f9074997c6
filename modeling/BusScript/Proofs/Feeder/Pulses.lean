import BusScript.Proofs.Feeder.Conservation

/-!
# Script Bytes Are Taken in Pulses

In one cycle up to three bytes are taken from the presented word. After such a **pulse** comes a
cycle in which none are, so that whoever presents the word has the time to shift out the bytes that
were taken. The queue keeps two flags for that. They move on at the beginning of a cycle, and
nothing but that clears them: the end of a run and the start of the next one empty the queue, and
leave a rest that is due.

## Main results

* `Intake.pulse_of_take` — bytes are taken only while no rest is due, and then one is.
* `Engine.Sound.step_pulse` — what is known of a cycle in which bytes are taken.
* `Feeder.consumes_in_pulses` — the pulses of an engine, whoever presents the words.
-/

namespace BusScript

open Command (Word)

namespace Intake

/-- The flags that keep the pulses apart. -/
def rhythm (i : Intake) : Bool × Bool := (i.pulsed, i.resting)

variable {i : Intake} {p : Command.Payload} {last : Bool}

/-- **Bytes are taken while no rest is due**, as many as there are lanes at most, and after them a
rest is due. -/
theorem pulse_of_take (h : (i.take p last).2 ≠ 0) :
    i.closed = false ∧ i.rhythm = (false, false) ∧ (i.take p last).2 ≤ lanes ∧
      (i.take p last).1.pulsed = true := by
  rw [take_eq] at h ⊢
  have hquota : i.quota p ≠ 0 := h
  obtain ⟨hopen, hpulsed, hresting⟩ : i.closed = false ∧ i.pulsed = false ∧ i.resting = false :=
    Decidable.byContradiction fun hbusy => hquota (if_neg hbusy)
  have hall : i.quota p = min p.length (min lanes (capacity - i.queue.length)) :=
    if_pos ⟨hopen, hpulsed, hresting⟩
  refine ⟨hopen, ?_, ?_, ?_⟩
  · rw [rhythm, hpulsed, hresting]
  · rw [hall]
    exact Nat.le_trans (Nat.min_le_right _ _) (Nat.min_le_left _ _)
  · dsimp only
    rw [bne_iff_ne.mpr hquota, Bool.or_true]

end Intake

namespace Engine

variable {e : Engine} {word : Word} {answer : Bus.Response}

/-! ### The flags in a cycle -/

/-- A transaction that retires does not reach the flags, even if it ends the run. -/
theorem rhythm_retire (e : Engine) (t : Bus.Transaction) (outcome : Bus.Outcome) :
    (e.retire t outcome).1.intake.rhythm = e.intake.rhythm := by
  unfold retire
  split
  case h_5 =>
    split
    · rfl
    · split <;> rfl
  all_goals rfl

/-- When the word is looked at, the flags have moved on, and nothing has been taken yet. -/
theorem rhythm_settled (e : Engine) (answer : Bus.Response) :
    (e.settled answer).intake.rhythm = (false, e.intake.pulsed) := by
  rw [settled]
  rcases e.rest.settle_cases answer with ⟨bus, hx, -⟩ | ⟨t, outcome, -, -, hx⟩
  · rw [hx]
    rfl
  · rw [hx]
    exact rhythm_retire e.rest.released t outcome

theorem rhythm_readHeader (e : Engine) : e.readHeader.intake.rhythm = e.intake.rhythm := by
  rcases e.readHeader_cases with ⟨-, -, hx⟩ | ⟨opcode, operand, rest, -, hx⟩ | ⟨b, -, -, hx⟩ |
    ⟨-, -, hx⟩
  · rw [hx]
  · rcases hx with ⟨error, -, hx⟩ | ⟨target, value, -, hx⟩ | ⟨header, a, -, -, hx⟩ <;>
      rw [hx] <;> rfl
  · rw [hx]
    rfl
  · rw [hx]

theorem rhythm_execute (e : Engine) (a : Activity) :
    (e.execute a).intake.rhythm = e.intake.rhythm := by
  rcases e.execute_cases a with ⟨-, -, hx⟩ | ⟨hx, -⟩ | ⟨-, hx⟩
  · rw [hx]
    rfl
  · rw [hx]
  · rcases hx with ⟨t, -, -, hx⟩ | ⟨t, -, -, -, hx⟩ | ⟨p, -, -, hx⟩ | ⟨p, -, -, hx⟩ <;>
      rw [hx] <;> rfl

/-- Nor does the decision of a cycle reach them. -/
theorem rhythm_act (e : Engine) : e.act.intake.rhythm = e.intake.rhythm := by
  rw [act]
  split
  · exact rhythm_readHeader e
  · exact rhythm_execute e _
  all_goals rfl

/-! ### Cycles that take bytes -/

/-- In a cycle, `n` bytes are taken from the presented word: a run is in progress and has not
failed, the word carries at least as many script bytes, and the first `n` of them go to the end of
the queue. -/
structure Pulse (e : Engine) (word : Word) (answer : Bus.Response) (n : Nat) : Prop where
  working : e.Working
  appended : ∃ p last, word.decode = .ok (.data p last) ∧ n ≤ p.length ∧
    (e.deciding word answer).intake.queue = e.intake.queue ++ p.bytes.take n

/-- An engine from which a word takes bytes is in the middle of a run. -/
theorem working_of_accept (h : (e.accept word).2 ≠ 0) :
    e.Working ∧ ∃ p last, word.decode = .ok (.data p last) ∧
      e.accept word =
        ({ e with intake := (e.intake.take p last).1 }, (e.intake.take p last).2) := by
  rcases e.accept_cases word with ⟨hx, -⟩ | ⟨error, hx⟩ | ⟨clear, -, -, hx⟩ | ⟨p, last, hs, hw, hx⟩
  · rw [hx] at h
    exact absurd rfl h
  · rw [hx] at h
    exact absurd rfl h
  · rw [hx] at h
    exact absurd rfl h
  · refine ⟨?_, p, last, hw, hx⟩
    have hending : ∀ verdict, ¬ (e.stage = .draining verdict ∨ e.stage = .ended verdict) := by
      intro verdict hending
      rw [accept_ending hending] at h
      exact h rfl
    rw [Working, status, isDraining]
    cases hstage : e.stage with
    | idle => exact absurd hstage hs
    | draining verdict => exact absurd (.inl hstage) (hending verdict)
    | ended verdict => exact absurd (.inr hstage) (hending verdict)
    | header | executing a | completing => exact ⟨rfl, rfl⟩

/-- An engine that is worked at when the bus has moved on was worked at before the cycle, and its
queue is as it was. -/
theorem Sound.working_of_settled (h : e.Sound) (hworking : (e.settled answer).Working) :
    e.Working ∧ (e.settled answer).intake = e.intake.tick := by
  obtain ⟨hrest, hintake⟩ := h.rest.intake_settle hworking
  have heq : e.rest = { e with intake := e.intake.tick } := by
    refine rest_eq fun verdict hs => ?_
    have hidle : e.rest.stage = .idle := by rw [Engine.rest, hs]
    rw [Working, status, hidle] at hrest
    cases hrest.1
  rw [heq] at hrest
  refine ⟨hrest, ?_⟩
  rw [settled, hintake, heq]

/-- **A cycle that takes bytes** finds no rest due and leaves one, and takes three at most. -/
theorem Sound.step_pulse (h : e.Sound) (word : Word) (answer : Bus.Response)
    (hn : (e.step word answer).2.consumed ≠ 0) :
    e.Pulse word answer (e.step word answer).2.consumed ∧
      (e.step word answer).2.consumed ≤ Intake.lanes ∧ e.intake.pulsed = false ∧
      (e.step word answer).1.intake.pulsed = true := by
  have haccept : ((e.settled answer).accept word).2 ≠ 0 := hn
  obtain ⟨hsettled, p, last, hw, hx⟩ := working_of_accept haccept
  obtain ⟨hworking, hintake⟩ := h.working_of_settled hsettled
  rw [hx] at haccept
  obtain ⟨hopen, hrhythm, hlanes, hpulsed⟩ := Intake.pulse_of_take haccept
  obtain ⟨i', n, htake, hle, hqueue, -⟩ := Intake.take_cases hopen p last
  have hconsumed : (e.step word answer).2.consumed =
      ((e.settled answer).intake.take p last).2 := congrArg Prod.snd hx
  have hdeciding : (e.deciding word answer).intake =
      ((e.settled answer).intake.take p last).1 := by
    rw [deciding, hx]
  refine ⟨⟨hworking, p, last, hw, ?_, ?_⟩, ?_, ?_, ?_⟩
  · rw [hconsumed, htake]
    exact hle
  · rw [hdeciding, hconsumed, htake]
    dsimp only
    rw [hqueue, hintake]
    rfl
  · rw [hconsumed]
    exact hlanes
  · rw [rhythm_settled] at hrhythm
    exact congrArg Prod.snd hrhythm
  · have hact : (e.step word answer).1.intake.rhythm = (e.deciding word answer).intake.rhythm :=
      rhythm_act _
    rw [hdeciding] at hact
    exact (congrArg Prod.fst hact).trans hpulsed

/-! ### Whole traces -/

/-- The pulses of an engine to which a word is presented in every cycle. -/
structure Pulses (engine : Nat → Engine) (words : Nat → Word) (answers : Nat → Bus.Response)
    (reports : Nat → Report) : Prop where
  /-- No more than three bytes are taken in a cycle. -/
  consumed_le : ∀ t, (reports t).consumed ≤ 3
  /-- Bytes are taken from the words of a run only, in order, and not once it has failed. -/
  taken : ∀ t, (reports t).consumed ≠ 0 →
    (engine t).Pulse (words t) (answers t) (reports t).consumed
  /-- No bytes are taken in two cycles on end, whatever ends or begins in them. -/
  spaced : ∀ t, (reports t).consumed ≠ 0 → (reports (t + 1)).consumed = 0

/-- **The pulses of a sound engine are kept apart**, whatever is presented and answered. -/
theorem pulses_of_steps {engine : Nat → Engine} {words : Nat → Word}
    {answers : Nat → Bus.Response} {reports : Nat → Report} (hsound : ∀ t, (engine t).Sound)
    (hstep : ∀ t, (engine t).step (words t) (answers t) = (engine (t + 1), reports t)) :
    Pulses engine words answers reports := by
  have hpulse : ∀ t, (reports t).consumed ≠ 0 →
      (engine t).Pulse (words t) (answers t) (reports t).consumed ∧
        (reports t).consumed ≤ Intake.lanes ∧ (engine t).intake.pulsed = false ∧
        (engine (t + 1)).intake.pulsed = true := by
    intro t
    have hnow := (hsound t).step_pulse (words t) (answers t)
    rwa [hstep] at hnow
  refine ⟨?_, fun t ht => (hpulse t ht).1, ?_⟩
  · intro t
    by_cases ht : (reports t).consumed = 0
    · rw [ht]
      exact Nat.zero_le _
    · exact (hpulse t ht).2.1
  · intro t ht
    obtain ⟨-, -, -, hdue⟩ := hpulse t ht
    refine Decidable.byContradiction fun hnext => ?_
    obtain ⟨-, -, hfree, -⟩ := hpulse (t + 1) hnext
    rw [hdue] at hfree
    cases hfree

end Engine

/-- The pulses of an engine to which any word may be presented in every cycle. -/
def Session.Pulses {τ : Type} [Bus.Target τ] (s : Session τ) : Prop :=
  Engine.Pulses s.engineAt s.words s.answer s.report

namespace Feeder

/-- What the engine of a feeder reports in a cycle. -/
def Feeding.report (f : Feeding) (t : Nat) : Report :=
  (present (f.engine t) (f.presented t) (f.answer t)).report

/-- The pulses of the engine of a feeder, which shifts out of the word that it holds what has been
taken of it. -/
def Feeding.Pulses (f : Feeding) : Prop :=
  Engine.Pulses f.engine (fun t => (f.presented t).getD .idle) f.answer f.report

theorem Feeding.pulses (f : Feeding) : f.Pulses :=
  Engine.pulses_of_steps f.sound_engine fun t => (f.engine_step t).symm

/-- **Script bytes are taken in pulses** of three bytes at most, which are kept apart, in order, and
only while a run is in progress that has not failed. That holds of every sequence of words that is
presented to a new engine, of the words that a feeder presents to it for a client, and of those that
a feeder fetches from a store. -/
theorem consumes_in_pulses {τ : Type} [Bus.Target τ] (options : Options) (target : τ) :
    (∀ words, (Session.new options target words).Pulses) ∧
      (∀ offers, (Stream.feeding options target offers).Pulses) ∧
      ∀ store requests, (Stored.feeding options store target requests).Pulses := by
  refine ⟨?_, fun offers => Feeding.pulses _, fun store requests => Feeding.pulses _⟩
  intro words
  exact Engine.pulses_of_steps (Session.sound _ (Engine.sound_new options)) fun _ => rfl

end Feeder

end BusScript
