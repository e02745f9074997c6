import BusScript.Bus.Playback
import BusScript.Proofs.Engine.Draining
import BusScript.Proofs.Engine.RegisterHistory

/-!
# What a Poll Does on the Bus

A poll reads one address again and again until a bit of what it reads has the awaited value. It has
a number of attempts, fixed when its header is read, and pauses between two of them. How long an
attempt takes is up to the target.

`PollPlan` has all these numbers, and they determine what is on the bus in which cycle: an attempt
is set up, waits, and is answered; the next one is set up one cycle and a pause later. The theorem
says that the engine keeps to the plan, that it ends the poll with the first attempt that reads the
awaited value or fails, and that it gives up when there are no more.

## Main results

* `Engine.Polls.settle_answered` — what the answer to an attempt does.
* `Session.polls_of_decidingAt`, `Session.polls_of_setup` — a pause, and the wait for an answer, of
  any length.
* `Session.Underway.polls_begins` — every attempt that is made is set up as planned.
* `Session.polls_exactly` — what a poll does, from the cycle in which its header is read to the one
  in which it ends.
-/

namespace BusScript

/-! ### Plans -/

/-- A poll in all its numbers. Attempts are counted from zero, and cycles from the one in which the
header is read. -/
structure PollPlan where
  address : Address
  bit : Nat
  untilSet : Bool
  /-- The attempts after which the poll gives up. -/
  budget : Nat
  /-- The cycles between two attempts. -/
  pause : Nat
  /-- The cycles in which an attempt waits for its answer. -/
  wait : Nat → Nat

namespace PollPlan

/-- The plan of a poll whose header finds these registers. -/
def ofRegisters (r : Registers) (low : Byte) (bit : Nat) (untilSet : Bool) (wait : Nat → Nat) :
    PollPlan :=
  ⟨r.address low, bit, untilSet, max r.pollCount.toNat 1, r.pollDelay.toNat, wait⟩

/-- The transaction of every attempt. -/
def read (p : PollPlan) : Bus.Transaction := ⟨p.address, .read⟩

/-- The setup cycle of an attempt. The first attempt is begun one cycle after the header is read,
and is on the wires in the next. -/
def begins (p : PollPlan) : Nat → Nat
  | 0 => 2
  | i + 1 => p.begins i + 1 + p.wait i + 1 + p.pause

/-- The cycle in which an attempt is answered. -/
def answered (p : PollPlan) (i : Nat) : Nat := p.begins i + 1 + p.wait i

/-- The next attempt is set up one cycle and a pause after the answer. -/
theorem begins_succ (p : PollPlan) (i : Nat) : p.begins (i + 1) = p.answered i + 1 + p.pause := rfl

theorem answered_succ (p : PollPlan) (i : Nat) :
    p.answered (i + 1) = p.answered i + 1 + p.pause + 1 + p.wait (i + 1) := rfl

theorem begins_pos (p : PollPlan) (i : Nat) : 1 ≤ p.begins i := by
  cases i with
  | zero => exact Nat.le_succ 1
  | succ i => rw [begins_succ]; omega

theorem begins_lt_answered (p : PollPlan) (i : Nat) : p.begins i < p.answered i := by
  rw [answered]
  omega

/-- The poll in progress, with some attempts made and some cycles of a pause to go. -/
def poll (p : PollPlan) (made pause : Nat) : Poll :=
  ⟨p.address, p.bit, p.untilSet, made, p.budget, pause⟩

end PollPlan

namespace Engine

variable {e : Engine} {p : PollPlan} {made pause n : Nat} {word : Command.Word}
  {answer : Bus.Response} {bus : Bus.Master}

/-! ### Engines that poll -/

/-- An engine in the middle of a poll. -/
structure Polls (e : Engine) (p : PollPlan) (made pause : Nat) (bus : Bus.Master) : Prop where
  stage : e.stage = .executing (.poll (p.poll made pause))
  bus_eq : e.bus = bus
  pollDelay : e.registers.pollDelay.toNat = p.pause

/-- A word that does not fail the run asks for nothing or brings bytes. -/
theorem decode_of_not_commandFails (h : ∀ error, ¬ e.CommandFails word error) :
    word.decode = .ok .idle ∨ ∃ payload last, word.decode = .ok (.data payload last) := by
  cases hd : word.decode with
  | error error => exact absurd (.undecodable hd) (h _)
  | ok command =>
      cases command with
      | idle => exact .inl rfl
      | start clear => exact absurd (.start hd) (h _)
      | data payload last => exact .inr ⟨payload, last, rfl⟩

/-- Such a word reaches nothing but the input of a run. -/
theorem accept_of_not_commandFails (h : ∀ error, ¬ e.CommandFails word error) {f : Engine}
    (hs : f.stage = .header ∨ ∃ a, f.stage = .executing a) :
    ∃ intake, (f.accept word).1 = { f with intake } := by
  rcases decode_of_not_commandFails h with hd | ⟨payload, last, hd⟩
  · rw [accept_idle hd]
    exact ⟨f.intake, rfl⟩
  · rw [accept_data hs hd]
    exact ⟨_, rfl⟩

/-- The decision of a poll with a pause to go counts it down. -/
theorem Polls.act_pausing (h : e.Polls p made (pause + 1) ⟨.idle, n⟩) :
    e.act.Polls p made pause ⟨.idle, n⟩ := by
  have hact : e.act = { e with stage := .executing (.poll (p.poll made pause)) } := by
    rw [act, h.stage]
    simp [execute, Activity.bytesNeeded, h.bus_eq, Bus.Master.isIdle, PollPlan.poll]
  rw [hact]
  exact ⟨rfl, h.bus_eq, h.pollDelay⟩

/-- The decision of a poll without a pause begins an attempt. -/
theorem Polls.act_beginning (h : e.Polls p made 0 ⟨.idle, n⟩) :
    e.act.Polls p (made + 1) 0 ⟨.setup p.read, n + 1⟩ := by
  have hact : e.act = e.begin p.read (.poll (p.poll (made + 1) 0)) := by
    rw [act, h.stage]
    simp [execute, Activity.bytesNeeded, h.bus_eq, Bus.Master.isIdle, PollPlan.poll, PollPlan.read]
  rw [hact]
  refine ⟨rfl, ?_, h.pollDelay⟩
  rw [begin, h.bus_eq]
  rfl

/-- While an attempt is on the bus there is nothing to decide. -/
theorem Polls.act_busy (h : e.Polls p made pause bus) (hbusy : bus.isIdle = false) :
    e.act.Polls p made pause bus := by
  have hact : e.act = e := by
    rw [act, h.stage]
    simp [execute, Activity.bytesNeeded, h.bus_eq, hbusy]
  rw [hact]
  exact h

/-- A word that fails no run does not disturb it. -/
theorem Polls.accept (h : e.Polls p made pause bus) {f : Engine}
    (hword : ∀ error, ¬ f.CommandFails word error) : (e.accept word).1.Polls p made pause bus := by
  obtain ⟨intake, hx⟩ := accept_of_not_commandFails hword (.inr ⟨_, h.stage⟩)
  rw [hx]
  exact ⟨h.stage, h.bus_eq, h.pollDelay⟩

theorem Polls.rest (h : e.Polls p made pause bus) : e.rest.Polls p made pause bus :=
  ⟨by rw [Engine.rest, h.stage], h.bus_eq, h.pollDelay⟩

/-! ### The bus under a poll -/

section Settled

variable {x : Bus.Transaction}

/-- During a pause the answers of the target do not matter. -/
theorem Polls.settled_pausing (h : e.Polls p made pause ⟨.idle, n⟩) (answer : Bus.Response) :
    (e.settled answer).Polls p made pause ⟨.idle, n⟩ := by
  have hnone : e.rest.bus.outstanding? = none := by
    rw [h.rest.bus_eq]
    rfl
  rw [settled, settle_of_outstanding_eq_none hnone]
  exact h.rest

/-- An attempt has one setup cycle. -/
theorem Polls.settled_setup (h : e.Polls p made pause ⟨.setup x, n⟩) (answer : Bus.Response) :
    (e.settled answer).Polls p made pause ⟨.access x, n⟩ := by
  have hphase : e.rest.bus.phase = .setup x := by rw [h.rest.bus_eq]
  rw [settled, settle_setup hphase]
  exact ⟨h.rest.stage, by rw [h.rest.bus_eq], h.pollDelay⟩

/-- It waits for its answer. -/
theorem Polls.settled_waiting (h : e.Polls p made pause ⟨.access x, n⟩)
    (hr : answer.ready = false) : (e.settled answer).Polls p made pause ⟨.access x, n⟩ := by
  have hphase : e.rest.bus.phase = .access x := by rw [h.rest.bus_eq]
  rw [settled, settle_waiting hphase hr]
  exact h.rest

/-- What the answer to an attempt does. -/
theorem Polls.settle_answered (h : e.Polls p made pause ⟨.access x, n⟩) (hsound : e.Sound)
    (hr : answer.ready = true) :
    e.rest.settle answer =
      if answer.error then (e.rest.released.fail (.busFault p.address false), none)
      else if answer.data.getLsbD p.bit = p.untilSet then
        ({ e.rest.released with stage := .header }, none)
      else if p.budget ≤ made then
        (e.rest.released.finish .pollFailed (some (.pollExhausted p.address made)), none)
      else
        ({ e.rest.released with stage := .executing (.poll (p.poll made p.pause)) }, none) := by
  have hphase : e.rest.bus.phase = .access x := by rw [h.rest.bus_eq]
  have hsatisfied : ((p.poll made pause).isSatisfied answer.data = true) =
      (answer.data.getLsbD p.bit = p.untilSet) := by
    rw [Poll.isSatisfied, beq_iff_eq]
    rfl
  rw [hsound.rest.settle_poll h.rest.stage hphase hr, h.rest.pollDelay]
  simp only [hsatisfied]
  rfl

/-- An attempt that misses, and is not the last one, is followed by a pause. -/
theorem Polls.settled_missed (h : e.Polls p made pause ⟨.access x, n⟩) (hsound : e.Sound)
    (hr : answer.ready = true) (herror : answer.error = false)
    (hmissed : answer.data.getLsbD p.bit ≠ p.untilSet) (hmore : made < p.budget) :
    (e.settled answer).Polls p made p.pause ⟨.idle, n⟩ := by
  rw [settled, h.settle_answered hsound hr, if_neg (Bool.eq_false_iff.mp herror), if_neg hmissed,
    if_neg (Nat.not_le_of_lt hmore)]
  refine ⟨rfl, ?_, h.pollDelay⟩
  simp only [released, h.rest.bus_eq]

/-- An attempt that hits is followed by the next header. -/
theorem Polls.settled_hit (h : e.Polls p made pause ⟨.access x, n⟩) (hsound : e.Sound)
    (hr : answer.ready = true) (herror : answer.error = false)
    (hhit : answer.data.getLsbD p.bit = p.untilSet) :
    e.settled answer = { e.rest.released with stage := .header } := by
  rw [settled, h.settle_answered hsound hr, if_neg (Bool.eq_false_iff.mp herror), if_pos hhit]

/-- A run that is over with its last transaction is over in that cycle, whatever word is
presented. -/
theorem step_of_finish {f : Engine} {verdict : Verdict} {error : RunError}
    (hx : e.rest.settle answer = (f.released.finish verdict (some error), none))
    (word : Command.Word) :
    e.step word answer = (f.released.finish verdict (some error), ⟨.ended verdict, 0, none⟩) := by
  rw [step, hx]
  rfl

/-- The last attempt, if it misses, ends the run. -/
theorem Polls.step_exhausted (h : e.Polls p made pause ⟨.access x, n⟩) (hsound : e.Sound)
    (hr : answer.ready = true) (herror : answer.error = false)
    (hmissed : answer.data.getLsbD p.bit ≠ p.untilSet) (hlast : p.budget ≤ made)
    (word : Command.Word) :
    e.step word answer =
      (e.rest.released.finish .pollFailed (some (.pollExhausted p.address made)),
        ⟨.ended .pollFailed, 0, none⟩) := by
  refine step_of_finish ?_ word
  rw [h.settle_answered hsound hr, if_neg (Bool.eq_false_iff.mp herror), if_neg hmissed,
    if_pos hlast]

/-- So does an attempt that the target refuses. -/
theorem Polls.step_faulted (h : e.Polls p made pause ⟨.access x, n⟩) (hsound : e.Sound)
    (hr : answer.ready = true) (herror : answer.error = true) (word : Command.Word) :
    e.step word answer =
      (e.rest.released.fail (.busFault p.address false), ⟨.ended .errored, 0, none⟩) := by
  refine step_of_finish ?_ word
  rw [h.settle_answered hsound hr, if_pos herror]
  rfl

end Settled

/-- What a poll reads is not reported. -/
theorem Polls.result_eq_none (h : e.Polls p made pause bus) (word : Command.Word)
    (answer : Bus.Response) : (e.step word answer).2.result = none := by
  have hresult : (e.step word answer).2.result = (e.rest.settle answer).2 := rfl
  rw [hresult]
  rcases e.rest.settle_cases answer with ⟨bus, hx, -⟩ | ⟨t, outcome, -, -, hx⟩
  · rw [hx]
  · have hstage : e.rest.released.stage = .executing (.poll (p.poll made pause)) := h.rest.stage
    rw [hx]
    cases outcome with
    | fault => rw [retire_fault hstage]
    | written => simp only [retire, hstage]
    | read value =>
        rw [retire_poll hstage]
        split
        · rfl
        · split <;> rfl

/-- An engine that awaits a header begins no transaction, whatever word is presented. -/
theorem bus_act_accept_of_header (hs : e.stage = .header) (word : Command.Word) :
    (e.accept word).1.act.bus = e.bus := by
  have hread : ∀ f : Engine, f.stage = .header → f.act.bus = f.bus := by
    intro f hf
    rw [act, hf]
    exact f.bus_readHeader
  rcases e.accept_cases word with ⟨hx, -⟩ | ⟨error, hx⟩ | ⟨clear, hidle, -⟩ | ⟨q, last, -, -, hx⟩
  · rw [hx]
    exact hread e hs
  · have hact : (e.fail error).act = e.fail error := by
      rcases e.stage_finish .errored (some error) with hend | hend <;> rw [fail, act, hend]
    rw [hx, hact]
    rfl
  · rw [hs] at hidle
    cases hidle
  · rw [hx]
    exact hread _ hs

end Engine

namespace Session

variable {τ : Type} [Bus.Target τ] {s : Session τ} {p : PollPlan} {t made n : Nat}

/-! ### Whole sessions -/

/-- The word that is presented in a cycle fails no operation in progress. -/
def Quiet (s : Session τ) (t : Nat) : Prop :=
  ∀ error, ¬ (s.engineAt t).CommandFails (s.words t) error

/-- The engine of a cycle, when the decision is to be made. -/
def decidingAt (s : Session τ) (t : Nat) : Engine :=
  (s.engineAt t).deciding (s.words t) (s.answer t)

/-- The answer to an attempt is a value with the awaited bit. -/
def Hits (s : Session τ) (p : PollPlan) (i : Nat) : Prop :=
  (s.answer (p.answered i)).error = false ∧
    (s.answer (p.answered i)).data.getLsbD p.bit = p.untilSet

/-- The answer to an attempt is a value without it. -/
def Misses (s : Session τ) (p : PollPlan) (i : Nat) : Prop :=
  (s.answer (p.answered i)).error = false ∧
    (s.answer (p.answered i)).data.getLsbD p.bit ≠ p.untilSet

/-- The answer to an attempt is an error. -/
def Faults (s : Session τ) (p : PollPlan) (i : Nat) : Prop :=
  (s.answer (p.answered i)).error = true

/-- An attempt comes to be made: the poll has so many, and all before it have missed. -/
def Attempts (s : Session τ) (p : PollPlan) (i : Nat) : Prop :=
  i < p.budget ∧ ∀ j < i, s.Misses p j

/-- Every attempt that is made is answered after its wait. -/
def Answers (s : Session τ) (p : PollPlan) : Prop :=
  ∀ i, s.Attempts p i →
    (∀ k < p.wait i, (s.answer (p.begins i + 1 + k)).ready = false) ∧
      (s.answer (p.answered i)).ready = true

/-- No word fails the run before the last attempt that is made has been answered. -/
def Undisturbed (s : Session τ) (p : PollPlan) : Prop :=
  ∀ i, s.Attempts p i → ∀ t, 1 ≤ t → t < p.answered i → s.Quiet t

/-- What the poll `p` does, whose header is read in the first cycle of a session. -/
structure PollsExactly (s : Session τ) (p : PollPlan) : Prop where
  /-- An attempt that is made is set up as planned, and is on the bus until it is answered. -/
  attempted : ∀ i, s.Attempts p i →
    s.request (p.begins i) = p.read.setup ∧
      ∀ t, p.begins i < t → t ≤ p.answered i → s.request t = p.read.enabled
  /-- Nothing is on the bus before the first attempt. -/
  idle_before : s.request 1 = .idle
  /-- After an attempt that has missed the bus is idle for the pause, and in the cycle after that
  the next attempt is set up. -/
  spaced : ∀ i, s.Attempts p (i + 1) →
    (∀ t, p.answered i < t → t < p.answered i + 1 + p.pause → s.request t = .idle) ∧
      s.request (p.answered i + 1 + p.pause) = p.read.setup
  /-- Up to the answer the script is running, and with the answer too nothing is reported to have
  been read. -/
  running : ∀ i, s.Attempts p i → ∀ t, 1 ≤ t → t ≤ p.answered i →
    s.status t = .running ∧ (s.report t).result = none
  /-- The first attempt that hits is the last one, and the next header is read in the same cycle. -/
  satisfied : ∀ i, s.Attempts p i → s.Hits p i →
    (s.engineAt (p.answered i + 1)).bus.issued = s.engine.bus.issued + (i + 1) ∧
      (s.Quiet (p.answered i) → (s.decidingAt (p.answered i)).stage = .header)
  /-- If all attempts miss, the poll has failed in the cycle of the last answer. -/
  exhausted : (∀ i < p.budget, s.Misses p i) →
    s.report (p.answered (p.budget - 1)) = ⟨.ended .pollFailed, 0, none⟩ ∧
      (s.engineAt (p.answered (p.budget - 1) + 1)).lastError =
        some (.pollExhausted p.address p.budget) ∧
      (s.engineAt (p.answered (p.budget - 1) + 1)).bus.issued = s.engine.bus.issued + p.budget
  /-- An attempt that is answered with an error is the last one. -/
  faulted : ∀ i, s.Attempts p i → s.Faults p i →
    s.report (p.answered i) = ⟨.ended .errored, 0, none⟩ ∧
      (s.engineAt (p.answered i + 1)).lastError = some (.busFault p.address false) ∧
      (s.engineAt (p.answered i + 1)).bus.issued = s.engine.bus.issued + (i + 1)

/-- An attempt is made only after the one before. -/
theorem Attempts.of_succ {i : Nat} (h : s.Attempts p (i + 1)) : s.Attempts p i :=
  ⟨Nat.lt_of_succ_lt h.1, fun j hj => h.2 j (Nat.lt_succ_of_lt hj)⟩

/-- A pause is counted down on an idle bus, and then the next attempt is set up: induction on the
pause. -/
theorem polls_of_decidingAt {k : Nat} (h : (s.decidingAt t).Polls p made k ⟨.idle, n⟩)
    (hquiet : ∀ u, t < u → u ≤ t + k → s.Quiet u) :
    (∀ u, t < u → u ≤ t + k → ∃ left, (s.engineAt u).Polls p made left ⟨.idle, n⟩) ∧
      (s.engineAt (t + 1 + k)).Polls p (made + 1) 0 ⟨.setup p.read, n + 1⟩ := by
  induction k generalizing t with
  | zero =>
      refine ⟨fun u hlt hle => ?_, h.act_beginning⟩
      omega
  | succ k ih =>
      have hnext : (s.engineAt (t + 1)).Polls p made k ⟨.idle, n⟩ := h.act_pausing
      have hdeciding : (s.decidingAt (t + 1)).Polls p made k ⟨.idle, n⟩ :=
        (hnext.settled_pausing _).accept (hquiet (t + 1) (by omega) (by omega))
      obtain ⟨hpaused, hbegun⟩ := ih hdeciding fun u hlt hle => hquiet u (by omega) (by omega)
      refine ⟨fun u hlt hle => ?_, ?_⟩
      · by_cases hu : u = t + 1
        · exact ⟨k, hu ▸ hnext⟩
        · exact hpaused u (by omega) (by omega)
      · have hcycle : t + 1 + (k + 1) = t + 1 + 1 + k := by omega
        rw [hcycle]
        exact hbegun

/-- An attempt that is set up is on the bus until it is answered: induction on the cycles in which
it waits. -/
theorem polls_of_setup {w : Nat} (h : (s.engineAt t).Polls p made 0 ⟨.setup p.read, n⟩)
    (hwait : ∀ k < w, (s.answer (t + 1 + k)).ready = false)
    (hquiet : ∀ u, t ≤ u → u < t + 1 + w → s.Quiet u) {k : Nat} (hk : k ≤ w) :
    (s.engineAt (t + 1 + k)).Polls p made 0 ⟨.access p.read, n⟩ := by
  induction k with
  | zero =>
      have hquiet' : s.Quiet t := hquiet t (Nat.le_refl t) (by omega)
      have hdeciding : (s.decidingAt t).Polls p made 0 ⟨.access p.read, n⟩ :=
        (h.settled_setup _).accept hquiet'
      exact hdeciding.act_busy rfl
  | succ k ih =>
      have hquiet' : s.Quiet (t + 1 + k) := hquiet _ (by omega) (by omega)
      have hdeciding : (s.decidingAt (t + 1 + k)).Polls p made 0 ⟨.access p.read, n⟩ :=
        ((ih (Nat.le_of_succ_le hk)).settled_waiting (hwait k hk)).accept hquiet'
      exact hdeciding.act_busy rfl

/-- A poll that is about to make its first attempt, when `n` transactions have been begun, under the
conditions on the target and the words. -/
structure Underway (s : Session τ) (p : PollPlan) (n : Nat) : Prop where
  sound : s.engine.Sound
  first : (s.engineAt 1).Polls p 0 0 ⟨.idle, n⟩
  answers : s.Answers p
  undisturbed : s.Undisturbed p

namespace Underway

/-- An attempt that has been set up is there when its answer comes. -/
theorem polls_access (h : s.Underway p n) {i : Nat} (hi : s.Attempts p i)
    (hsetup : (s.engineAt (p.begins i)).Polls p (i + 1) 0 ⟨.setup p.read, n + (i + 1)⟩)
    (hlt : p.begins i < t) (hle : t ≤ p.answered i) :
    (s.engineAt t).Polls p (i + 1) 0 ⟨.access p.read, n + (i + 1)⟩ := by
  have hquiet : ∀ u, p.begins i ≤ u → u < p.begins i + 1 + p.wait i → s.Quiet u :=
    fun u hu hlt => h.undisturbed i hi u (Nat.le_trans (p.begins_pos i) hu) hlt
  obtain ⟨k, rfl⟩ : ∃ k, t = p.begins i + 1 + k := ⟨t - (p.begins i + 1), by omega⟩
  rw [PollPlan.answered] at hle
  exact polls_of_setup hsetup (h.answers i hi).1 hquiet (by omega)

/-- If it misses and there are more, its answer begins a pause. -/
theorem polls_pausing (h : s.Underway p n) {i : Nat} (hi : s.Attempts p (i + 1))
    (hsetup : (s.engineAt (p.begins i)).Polls p (i + 1) 0 ⟨.setup p.read, n + (i + 1)⟩) :
    (s.decidingAt (p.answered i)).Polls p (i + 1) p.pause ⟨.idle, n + (i + 1)⟩ := by
  have hbegins := p.begins_lt_answered i
  have hlater := p.answered_succ i
  have haccess := h.polls_access hi.of_succ hsetup hbegins (Nat.le_refl _)
  obtain ⟨herror, hmissed⟩ := hi.2 i (Nat.lt_succ_self i)
  have hquiet : s.Quiet (p.answered i) := h.undisturbed (i + 1) hi _ (by omega) (by omega)
  exact (haccess.settled_missed (s.sound h.sound _) (h.answers i hi.of_succ).2 herror hmissed
    hi.1).accept hquiet

/-- What the pause comes to. -/
theorem polls_paused (h : s.Underway p n) {i : Nat} (hi : s.Attempts p (i + 1))
    (hsetup : (s.engineAt (p.begins i)).Polls p (i + 1) 0 ⟨.setup p.read, n + (i + 1)⟩) :
    (∀ u, p.answered i < u → u ≤ p.answered i + p.pause →
      ∃ left, (s.engineAt u).Polls p (i + 1) left ⟨.idle, n + (i + 1)⟩) ∧
    (s.engineAt (p.begins (i + 1))).Polls p (i + 2) 0 ⟨.setup p.read, n + (i + 2)⟩ := by
  have hlater := p.answered_succ i
  refine polls_of_decidingAt (h.polls_pausing hi hsetup) fun u hlt hle => ?_
  exact h.undisturbed (i + 1) hi u (by omega) (by omega)

/-- **Every attempt that is made is set up as planned**: induction on the attempts. -/
theorem polls_begins (h : s.Underway p n) {i : Nat} (hi : s.Attempts p i) :
    (s.engineAt (p.begins i)).Polls p (i + 1) 0 ⟨.setup p.read, n + (i + 1)⟩ := by
  induction i with
  | zero =>
      have hlater : p.answered 0 = 3 + p.wait 0 := rfl
      have hquiet : s.Quiet 1 := h.undisturbed 0 hi 1 (Nat.le_refl 1) (by omega)
      have hdeciding : (s.decidingAt 1).Polls p 0 0 ⟨.idle, n⟩ :=
        (h.first.settled_pausing _).accept hquiet
      exact hdeciding.act_beginning
  | succ i ih => exact (h.polls_paused hi (ih hi.of_succ)).2

/-- The poll is in progress until the last attempt that is made is answered. -/
theorem polls_until (h : s.Underway p n) {i : Nat} (hi : s.Attempts p i) (ht : 1 ≤ t)
    (hle : t ≤ p.answered i) : ∃ made pause bus, (s.engineAt t).Polls p made pause bus := by
  induction i with
  | zero =>
      obtain rfl | rfl | hbegun : t = 1 ∨ t = 2 ∨ 2 < t := by omega
      · exact ⟨_, _, _, h.first⟩
      · exact ⟨_, _, _, h.polls_begins hi⟩
      · exact ⟨_, _, _, h.polls_access hi (h.polls_begins hi) hbegun hle⟩
  | succ i ih =>
      have hsetup := h.polls_begins hi.of_succ
      have hbegins := p.begins_succ i
      obtain hbefore | ⟨hlt, hpause⟩ | rfl | hbegun :
          t ≤ p.answered i ∨ (p.answered i < t ∧ t ≤ p.answered i + p.pause) ∨
            t = p.begins (i + 1) ∨ p.begins (i + 1) < t := by omega
      · exact ih hi.of_succ hbefore
      · obtain ⟨left, hpolls⟩ := (h.polls_paused hi hsetup).1 t hlt hpause
        exact ⟨_, _, _, hpolls⟩
      · exact ⟨_, _, _, h.polls_begins hi⟩
      · exact ⟨_, _, _, h.polls_access hi (h.polls_begins hi) hbegun hle⟩

/-- The bus under the poll. -/
theorem attempted (h : s.Underway p n) {i : Nat} (hi : s.Attempts p i) :
    s.request (p.begins i) = p.read.setup ∧
      ∀ t, p.begins i < t → t ≤ p.answered i → s.request t = p.read.enabled := by
  have hsetup := h.polls_begins hi
  refine ⟨?_, fun t hlt hle => ?_⟩
  · rw [request, Engine.request, hsetup.bus_eq]
    rfl
  · rw [request, Engine.request, (h.polls_access hi hsetup hlt hle).bus_eq]
    rfl

/-- The bus between two attempts. -/
theorem spaced (h : s.Underway p n) {i : Nat} (hi : s.Attempts p (i + 1)) :
    (∀ t, p.answered i < t → t < p.answered i + 1 + p.pause → s.request t = .idle) ∧
      s.request (p.answered i + 1 + p.pause) = p.read.setup := by
  refine ⟨fun t hlt hbefore => ?_, (h.attempted hi).1⟩
  obtain ⟨left, hpolls⟩ := (h.polls_paused hi (h.polls_begins hi.of_succ)).1 t hlt (by omega)
  rw [request, Engine.request, hpolls.bus_eq]
  rfl

/-- What is reported while it goes on. -/
theorem running (h : s.Underway p n) {i : Nat} (hi : s.Attempts p i) (ht : 1 ≤ t)
    (hle : t ≤ p.answered i) : s.status t = .running ∧ (s.report t).result = none := by
  obtain ⟨made, pause, bus, hpolls⟩ := h.polls_until hi ht hle
  refine ⟨?_, hpolls.result_eq_none _ _⟩
  rw [status_eq, Engine.status, hpolls.stage]
  rfl

/-- An attempt when its answer comes, with the transactions that have been begun by then. -/
theorem polls_answered (h : s.Underway p n) {i : Nat} (hi : s.Attempts p i) :
    (s.engineAt (p.answered i)).Polls p (i + 1) 0 ⟨.access p.read, n + (i + 1)⟩ :=
  h.polls_access hi (h.polls_begins hi) (p.begins_lt_answered i) (Nat.le_refl _)

/-- The end of a poll that finds what it is looking for. -/
theorem satisfied (h : s.Underway p n) {i : Nat} (hi : s.Attempts p i) (hhit : s.Hits p i) :
    (s.engineAt (p.answered i + 1)).bus.issued = n + (i + 1) ∧
      (s.Quiet (p.answered i) → (s.decidingAt (p.answered i)).stage = .header) := by
  have hnow := h.polls_answered hi
  have hsettled := hnow.settled_hit (s.sound h.sound _) (h.answers i hi).2 hhit.1 hhit.2
  have hstage :
      ((s.engineAt (p.answered i)).settled (s.answer (p.answered i))).stage = .header := by
    rw [hsettled]
  constructor
  · have hbus : (s.engineAt (p.answered i + 1)).bus =
        ((s.engineAt (p.answered i)).settled (s.answer (p.answered i))).bus :=
      Engine.bus_act_accept_of_header hstage _
    have hissued : (s.engineAt (p.answered i)).rest.released.bus.issued =
        (s.engineAt (p.answered i)).bus.issued := rfl
    rw [hbus, hsettled, hissued, hnow.bus_eq]
  · intro hquiet
    obtain ⟨intake, hx⟩ := Engine.accept_of_not_commandFails hquiet (.inl hstage)
    rw [decidingAt, Engine.deciding, hx]
    exact hstage

/-- The end of a poll that does not. -/
theorem exhausted (h : s.Underway p n) (hpos : 0 < p.budget)
    (hmissed : ∀ i < p.budget, s.Misses p i) :
    s.report (p.answered (p.budget - 1)) = ⟨.ended .pollFailed, 0, none⟩ ∧
      (s.engineAt (p.answered (p.budget - 1) + 1)).lastError =
        some (.pollExhausted p.address p.budget) ∧
      (s.engineAt (p.answered (p.budget - 1) + 1)).bus.issued = n + p.budget := by
  have hlast : p.budget - 1 < p.budget := Nat.sub_lt hpos Nat.one_pos
  have hi : s.Attempts p (p.budget - 1) := ⟨hlast, fun j hj => hmissed j (Nat.lt_trans hj hlast)⟩
  obtain ⟨herror, hmissed'⟩ := hmissed _ hlast
  have hnow := h.polls_answered hi
  rw [Nat.sub_add_cancel hpos] at hnow
  rw [report_eq, engineAt_succ,
    hnow.step_exhausted (s.sound h.sound _) (h.answers _ hi).2 herror hmissed' (Nat.le_refl _)]
  refine ⟨rfl, rfl, ?_⟩
  exact congrArg Bus.Master.issued hnow.bus_eq

/-- The end of a poll that fails. -/
theorem faulted (h : s.Underway p n) {i : Nat} (hi : s.Attempts p i) (hfault : s.Faults p i) :
    s.report (p.answered i) = ⟨.ended .errored, 0, none⟩ ∧
      (s.engineAt (p.answered i + 1)).lastError = some (.busFault p.address false) ∧
      (s.engineAt (p.answered i + 1)).bus.issued = n + (i + 1) := by
  have hnow := h.polls_answered hi
  rw [report_eq, engineAt_succ,
    hnow.step_faulted (s.sound h.sound _) (h.answers i hi).2 hfault]
  refine ⟨rfl, rfl, ?_⟩
  exact congrArg Bus.Master.issued hnow.bus_eq

end Underway

/-- The cycle after the header of a poll is read: its plan is made from the registers as they were,
and nothing is on the bus. -/
theorem polls_of_header? (hsound : s.engine.Sound) {low : Byte} {bit : Nat} {untilSet : Bool}
    (h : s.header? 0 = some (.poll low bit untilSet)) (wait : Nat → Nat) :
    (s.engineAt 1).Polls (.ofRegisters s.engine.registers low bit untilSet wait) 0 0
      ⟨.idle, s.engine.bus.issued⟩ := by
  have hbefore : (s.engineAt 0).Sound := hsound
  have hnext : (s.decidingAt 0).nextHeader? = some (.poll low bit untilSet) := h
  have hstage : (s.decidingAt 0).stage = .header := (Engine.nextHeader?_eq_some_iff.mp hnext).1
  have hfinds : (s.decidingAt 0).Sound := (hsound.rest.settle _).accept _
  have hissued : (s.decidingAt 0).bus.issued = s.engine.bus.issued := by
    rw [decidingAt, Engine.deciding, Engine.bus_accept, Engine.settled, Engine.bus_settle,
      Bus.Master.issued_advance]
    rfl
  refine ⟨stage_of_header? hbefore h rfl, ?_, ?_⟩
  · have hidle : (s.decidingAt 0).bus.phase = .idle := by
      have hnone : (s.decidingAt 0).bus.outstanding? = none := hfinds.fits_of hstage
      rw [Bus.Master.outstanding?] at hnone
      cases hp : (s.decidingAt 0).bus.phase with
      | idle => rfl
      | setup x | access x =>
          rw [hp] at hnone
          cases hnone
    have hact : (s.engineAt 1).bus = (s.decidingAt 0).bus := by
      have hread : (s.decidingAt 0).act = (s.decidingAt 0).readHeader := by
        rw [Engine.act, hstage]
      exact (congrArg Engine.bus hread).trans (Engine.bus_readHeader _)
    rw [hact, ← hidle, ← hissued]
  · have hregisters : (s.engineAt 1).registers = s.engine.registers := by
      refine registers_of_not_set (not_clears_of_header? hbefore h) fun target value hset => ?_
      rw [h] at hset
      cases hset
    rw [hregisters]
    rfl

/-- **What a poll does.** Take any engine that can be reached, a cycle in which it reads the header
of a poll, a target that answers every attempt after some wait, and words that fail no operation.
Then the poll does what its plan says: it makes attempts, one after the other with the pause
between them, until one hits or fails or there are no more. -/
theorem polls_exactly {options : Options} (h : s.engine.Reachable options) {low : Byte} {bit : Nat}
    {untilSet : Bool} (hheader : s.header? 0 = some (.poll low bit untilSet)) (wait : Nat → Nat)
    (hanswers : s.Answers (.ofRegisters s.engine.registers low bit untilSet wait))
    (hwords : s.Undisturbed (.ofRegisters s.engine.registers low bit untilSet wait)) :
    s.PollsExactly (.ofRegisters s.engine.registers low bit untilSet wait) := by
  have hfirst := polls_of_header? h.sound hheader wait
  have hpoll : s.Underway (.ofRegisters s.engine.registers low bit untilSet wait)
      s.engine.bus.issued := ⟨h.sound, hfirst, hanswers, hwords⟩
  have hbudget : 0 < max s.engine.registers.pollCount.toNat 1 := by omega
  refine ⟨fun i hi => hpoll.attempted hi, ?_, fun i hi => hpoll.spaced hi,
    fun i hi t ht => hpoll.running hi ht, fun i hi => hpoll.satisfied hi,
    hpoll.exhausted hbudget, fun i hi => hpoll.faulted hi⟩
  rw [request, Engine.request, hfirst.bus_eq]
  rfl

/-- Options with two attempts to a poll, and one cycle between them. -/
def impatient : Options := { (default : Options) with pollCount := 2, pollDelay := 1 }

/-- An engine whose script has been started. -/
def started : Engine := ((Engine.new impatient).step ⟨0x0010000000000000⟩ .wait).1

/-- The first word is a poll for bit 3 of address 16 to be set. The target has the first attempt
wait, and answers both with a value in which that bit is not set. -/
def hopeless : Session Bus.Playback where
  engine := started
  target := ⟨[.wait, ⟨0xfffffff7, true, false⟩, ⟨0, true, false⟩]⟩
  words t := [⟨0x001a000000001063⟩].getD t .idle

/-- The plan of that poll. -/
def hopelessPlan : PollPlan := .ofRegisters started.registers 0x10 3 true fun i => [1].getD i 0

/-- The first attempt is set up in cycle 2 and answered in cycle 4, the second is set up in cycle 6
and answered in cycle 7, and then the poll has failed. -/
theorem polls_exactly_hopeless :
    hopeless.engine.Reachable impatient ∧ hopeless.header? 0 = some (.poll 0x10 3 true) ∧
      hopeless.Answers hopelessPlan ∧ hopeless.Undisturbed hopelessPlan ∧
      (∀ i < hopelessPlan.budget, hopeless.Misses hopelessPlan i) ∧
      hopelessPlan.answered 0 = 4 ∧ hopelessPlan.begins 1 = 6 ∧ hopelessPlan.answered 1 = 7 ∧
      hopeless.PollsExactly hopelessPlan := by
  have h : started.Reachable impatient := .step .new _ _
  have hmissed : ∀ i < hopelessPlan.budget, hopeless.Misses hopelessPlan i := by
    intro i hi
    have hbudget : hopelessPlan.budget = 2 := rfl
    obtain rfl | rfl : i = 0 ∨ i = 1 := by omega
    · exact ⟨rfl, by decide⟩
    · exact ⟨rfl, by decide⟩
  have hanswers : hopeless.Answers hopelessPlan := by
    intro i hi
    have hlt : i < 2 := hi.1
    obtain rfl | rfl : i = 0 ∨ i = 1 := by omega
    · refine ⟨fun k hk => ?_, rfl⟩
      obtain rfl : k = 0 := Nat.lt_one_iff.mp hk
      rfl
    · exact ⟨fun k hk => absurd hk (Nat.not_lt_zero k), rfl⟩
  have hwords : hopeless.Undisturbed hopelessPlan := by
    intro i hi t ht hlt error hfail
    obtain ⟨k, rfl⟩ : ∃ k, t = k + 1 := ⟨t - 1, by omega⟩
    have hword : hopeless.words (k + 1) = .idle := by simp [hopeless]
    have hidle : (hopeless.words (k + 1)).decode = .ok .idle := by
      rw [hword]
      rfl
    cases hfail with
    | undecodable hd | start hd | cutOff hs hd =>
        rw [hidle] at hd
        cases hd
  exact ⟨h, rfl, hanswers, hwords, hmissed, rfl, rfl, rfl, polls_exactly h rfl _ hanswers hwords⟩

end Session

end BusScript
