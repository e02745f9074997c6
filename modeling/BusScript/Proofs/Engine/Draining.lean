import BusScript.Bus.Playback
import BusScript.Proofs.Engine.Compliance

/-!
# A Failed Run Drains

A run can fail on the command side while a transaction of it is on the bus: the presented word
cannot be read, it is a start, or it closes the input of a write that has not had all its bytes. The
transaction cannot be withdrawn, so the engine carries it to its end. It is **draining** in the
meantime: deaf to the words that are presented, and with the first failure kept, whatever becomes of
the transaction.

## Main results

* `Engine.Sound.drains_of_commandFails` — the cycle in which a run fails on the command side.
* `Engine.Drains.step_waiting`, `Engine.Drains.step_answered` — the cycles after it.
* `Session.drains_to_retirement` — from the failure to the end of the transaction.
-/

namespace BusScript

namespace Engine

/-- The failures of the command side that a word can cause while an operation is in progress. -/
inductive CommandFails (e : Engine) (word : Command.Word) : RunError → Prop
  /-- The word cannot be read. -/
  | undecodable {error : DecodeError} (h : word.decode = .error error) :
      CommandFails e word (.undecodable error)
  /-- The word is a start. -/
  | start {clear : Bool} (h : word.decode = .ok (.start clear)) :
      CommandFails e word .unexpectedStart
  /-- The word closes the input, and the operation has not had all its bytes. -/
  | cutOff {a : Activity} {p : Command.Payload} {last : Bool} (hs : e.stage = .executing a)
      (h : word.decode = .ok (.data p last)) (hclosed : (e.intake.tick.take p last).1.closed = true)
      (hshort : (e.intake.tick.take p last).1.queue.length < a.bytesNeeded) :
      CommandFails e word .incompleteOperation

/-- A failed run whose last transaction `x` is still on the bus. -/
structure Drains (e : Engine) (x : Bus.Transaction) (error : RunError) : Prop where
  stage : e.stage = .draining .errored
  phase : e.bus.phase = .access x
  lastError : e.lastError = some error

variable {e : Engine} {word : Command.Word} {answer : Bus.Response} {x : Bus.Transaction}
  {error : RunError}

/-! ### The cycle that fails -/

/-- A transaction that does not end in a cycle is in its access phase after it. -/
theorem settle_open (hx : e.bus.outstanding? = some x)
    (hopen : (e.request.isAccess && answer.ready) = false) :
    e.settle answer = ({ e with bus := ⟨.access x, e.bus.issued⟩ }, none) := by
  rw [Bus.Master.outstanding?] at hx
  cases hp : e.bus.phase with
  | idle =>
      rw [hp] at hx
      cases hx
  | setup t =>
      rw [hp] at hx
      cases hx
      exact settle_setup hp answer
  | access t =>
      rw [hp] at hx
      cases hx
      have haccess : e.request.isAccess = true := by
        rw [Engine.request, Bus.Master.request_access hp, Bus.Transaction.isAccess_enabled]
      rw [haccess, Bool.true_and] at hopen
      rw [settle_waiting hp hopen, ← hp]

/-- A run that fails with a transaction on the bus drains. -/
theorem drains_fail (hp : e.bus.phase = .access x) (error : RunError) :
    (e.fail error).Drains x error := by
  have hbusy : e.bus.isIdle = false := by rw [Bus.Master.isIdle, hp]
  refine ⟨?_, hp, rfl⟩
  rw [fail, finish, hbusy]
  rfl

/-- A run that drains decides nothing. -/
theorem Drains.act_eq (h : e.Drains x error) : e.act = e := by
  rw [act, h.stage]

/-- The word that makes a run fail does so before the cycle is over. The bytes that come with it are
dropped with the rest of the input. -/
theorem CommandFails.act_deciding (h : e.CommandFails word error) {a : Activity}
    (hs : e.stage = .executing a)
    (hm : e.settled answer =
      { e with intake := e.intake.tick, bus := ⟨.access x, e.bus.issued⟩ }) :
    ∃ intake, (e.deciding word answer).act =
      ({ e with intake, bus := ⟨.access x, e.bus.issued⟩ } : Engine).fail error := by
  have hrun : (e.settled answer).stage = .executing a := by rw [hm, ← hs]
  have hfailed : ∀ f : Engine, f.bus.phase = .access x → (f.fail error).act = f.fail error :=
    fun f hp => (drains_fail hp error).act_eq
  cases h with
  | undecodable hd =>
      refine ⟨e.intake.tick, ?_⟩
      rw [deciding, accept, hrun, hd, hm]
      exact hfailed _ rfl
  | start hd =>
      refine ⟨e.intake.tick, ?_⟩
      rw [deciding, accept, hrun, hd]
      simp only [obey, hrun]
      rw [hm]
      exact hfailed _ rfl
  | @cutOff a' p last hs' hd hclosed hshort =>
      obtain rfl : a' = a := by
        rw [hs] at hs'
        cases hs'
        rfl
      refine ⟨(e.intake.tick.take p last).1, ?_⟩
      have hcut : (decide ((e.intake.tick.take p last).1.queue.length < a'.bytesNeeded)) = true :=
        decide_eq_true hshort
      rw [deciding, accept_data (.inr ⟨a', hrun⟩) hd, hm, act]
      simp only [hs, execute, hclosed, hcut, Bool.and_self, if_true]

/-- **The cycle in which a run fails on the command side**, while a transaction is outstanding that
does not end in it: the failure is noted, and the engine drains. -/
theorem Sound.drains_of_commandFails (h : e.Sound) (hrun : e.isDraining = false)
    (hx : e.bus.outstanding? = some x) (hopen : (e.request.isAccess && answer.ready) = false)
    (hfail : e.CommandFails word error) :
    (e.step word answer).1.Drains x error ∧
      (e.step word answer).1.registers = e.registers ∧
      (e.step word answer).1.bus.issued = e.bus.issued ∧
      (e.step word answer).2.status = .running := by
  obtain ⟨a, hs, -⟩ : ∃ a, e.stage = .executing a ∧ a.Fits (some x) := by
    refine (h.stage_of_outstanding hx).resolve_right fun hs => ?_
    rw [isDraining, hs] at hrun
    cases hrun
  have hrest : e.rest = { e with intake := e.intake.tick } := by
    refine rest_eq fun verdict hended => ?_
    rw [hs] at hended
    cases hended
  have hsettled : e.settled answer =
      { e with intake := e.intake.tick, bus := ⟨.access x, e.bus.issued⟩ } := by
    rw [settled, settle_open (e := e.rest) hx hopen, hrest]
  obtain ⟨intake, hact⟩ := hfail.act_deciding hs hsettled
  have hstep : (e.step word answer).1 =
      ({ e with intake, bus := ⟨.access x, e.bus.issued⟩ } : Engine).fail error := hact
  have hdrains : (e.step word answer).1.Drains x error := by
    rw [hstep]
    exact drains_fail rfl error
  have hstatus : (e.step word answer).2.status = (e.step word answer).1.status := rfl
  refine ⟨hdrains, ?_, ?_, ?_⟩
  · rw [hstep]
    rfl
  · rw [hstep]
    rfl
  · rw [hstatus, status, hdrains.stage]
    rfl

/-! ### The cycles after it -/

/-- A run that drains has not been forgotten yet. -/
theorem Drains.rest_eq (h : e.Drains x error) : e.rest = { e with intake := e.intake.tick } := by
  refine Engine.rest_eq fun verdict hended => ?_
  rw [h.stage] at hended
  cases hended

/-- As long as its transaction is not answered, a run that drains only moves its input on, whatever
word is presented. -/
theorem Drains.step_waiting (h : e.Drains x error) (hr : answer.ready = false)
    (word : Command.Word) :
    e.step word answer = ({ e with intake := e.intake.tick }, ⟨.running, 0, none⟩) := by
  have hstage : e.rest.stage = .draining .errored := by rw [h.rest_eq, ← h.stage]
  have hact : e.rest.act = e.rest := by rw [act, hstage]
  have hstatus : e.rest.status = .running := by
    rw [status, hstage]
    rfl
  rw [step, settle_waiting (e := e.rest) h.phase hr]
  simp only [accept_ending (.inl hstage), hact, hstatus]
  rw [h.rest_eq]

/-- The answer ends it, whatever the outcome and the word. -/
theorem Drains.step_answered (h : e.Drains x error) (hr : answer.ready = true)
    (word : Command.Word) :
    e.step word answer =
      ({ e with
          stage := .ended .errored
          intake := e.intake.tick
          bus := ⟨.idle, e.bus.issued⟩ }, ⟨.ended .errored, 0, none⟩) := by
  have hstage : e.rest.released.stage = .draining .errored := by
    rw [released, h.rest_eq, ← h.stage]
  rw [step, settle_ready (e := e.rest) h.phase hr, retire_draining hstage]
  -- an engine whose run has ended takes no word and decides nothing
  rfl

end Engine

namespace Session

variable {τ : Type} [Bus.Target τ] {s : Session τ} {x : Bus.Transaction} {error : RunError}

/-! ### Whole sessions -/

/-- The transaction that is on the bus after the first cycle has not been answered before cycle
`t`. -/
def Unanswered (s : Session τ) (t : Nat) : Prop :=
  1 ≤ t ∧ ∀ k, 1 ≤ k → k < t → s.completes k = false

/-- What comes after the failure of a run in the first cycle of a session, with `x` on the bus. -/
structure Drains (s : Session τ) (x : Bus.Transaction) (error : RunError) : Prop where
  /-- The cycle that fails reports that the script is running, and the failure is kept. -/
  failing : (s.report 0).status = .running ∧ (s.engineAt 1).lastError = some error
  /-- Until it is answered, the transaction stays on the bus, no word can be put up, and nothing
  changes in what is kept. -/
  kept : ∀ t, s.Unanswered t →
    s.request t = x.enabled ∧ (s.engineAt t).canAccept = false ∧
      (s.engineAt t).registers = s.engine.registers ∧ (s.engineAt t).lastError = some error ∧
      (s.engineAt t).bus.issued = s.engine.bus.issued
  /-- As long as there is no answer, the engine takes nothing and reports nothing but that it is
  running. -/
  waiting : ∀ t, s.Unanswered t → s.completes t = false → s.report t = ⟨.running, 0, none⟩
  /-- With the answer, whatever it is, the engine reports the end of the run and nothing else. The
  first failure stands, and the bus is idle. -/
  answered : ∀ t, s.Unanswered t → s.completes t = true →
    s.report t = ⟨.ended .errored, 0, none⟩ ∧ (s.engineAt (t + 1)).lastError = some error ∧
      (s.engineAt (t + 1)).bus.isIdle = true

/-- An engine that drains goes on draining until its transaction is answered: induction on the
cycles since the failure. -/
theorem drains_of_unanswered (h : (s.engineAt 1).Drains x error) (n : Nat)
    (hopen : s.Unanswered (n + 1)) :
    (s.engineAt (n + 1)).Drains x error ∧
      (s.engineAt (n + 1)).registers = (s.engineAt 1).registers ∧
      (s.engineAt (n + 1)).bus.issued = (s.engineAt 1).bus.issued := by
  induction n with
  | zero => exact ⟨h, rfl, rfl⟩
  | succ n ih =>
      obtain ⟨-, hbefore⟩ := hopen
      obtain ⟨hnow, hregisters, hissued⟩ :=
        ih ⟨Nat.succ_pos n, fun k hk hlt => hbefore k hk (Nat.lt_succ_of_lt hlt)⟩
      have haccess : (s.request (n + 1)).isAccess = true := by
        rw [request, Engine.request, Bus.Master.request_access hnow.phase,
          Bus.Transaction.isAccess_enabled]
      have hready : (s.answer (n + 1)).ready = false := by
        have hwait := hbefore (n + 1) (Nat.succ_pos n) (Nat.lt_succ_self _)
        rwa [completes, haccess, Bool.true_and] at hwait
      rw [engineAt_succ, hnow.step_waiting hready]
      exact ⟨⟨hnow.stage, hnow.phase, hnow.lastError⟩, hregisters, hissued⟩

/-- **A run that fails on the command side drains.** Take any engine that can be reached, with a
transaction `x` outstanding and a run that has not failed, and a cycle that does not end the
transaction and in which the run fails on the command side. Then the transaction is carried to its
end, and the failure is the one that is reported. -/
theorem drains_to_retirement {options : Options} (h : s.engine.Reachable options)
    (hrun : s.engine.isDraining = false) (hx : s.engine.bus.outstanding? = some x)
    (hopen : s.completes 0 = false) (hfail : s.engine.CommandFails (s.words 0) error) :
    s.Drains x error := by
  obtain ⟨hfirst, hregisters, hissued, hstatus⟩ :=
    h.sound.drains_of_commandFails hrun hx hopen hfail
  have hdrains : ∀ t, s.Unanswered t → (s.engineAt t).Drains x error ∧
      (s.engineAt t).registers = s.engine.registers ∧
      (s.engineAt t).bus.issued = s.engine.bus.issued := by
    rintro (_ | n) ht
    · exact absurd ht.1 (Nat.not_succ_le_zero 0)
    · obtain ⟨hnow, hregisters', hissued'⟩ := drains_of_unanswered hfirst n ht
      exact ⟨hnow, hregisters'.trans hregisters, hissued'.trans hissued⟩
  have hcompletes : ∀ t, s.Unanswered t → s.completes t = (s.answer t).ready := by
    intro t ht
    have hrequest : s.request t = x.enabled := Bus.Master.request_access (hdrains t ht).1.phase
    rw [completes, hrequest, Bus.Transaction.isAccess_enabled, Bool.true_and]
  refine ⟨⟨hstatus, hfirst.lastError⟩, ?_, ?_, ?_⟩
  · intro t ht
    obtain ⟨hnow, hregisters', hissued'⟩ := hdrains t ht
    have hbusy : (s.engineAt t).canAccept = false := by
      rw [Engine.canAccept, Bus.Master.isIdle, hnow.phase]
      rfl
    exact ⟨Bus.Master.request_access hnow.phase, hbusy, hregisters', hnow.lastError, hissued'⟩
  · intro t ht hwait
    rw [hcompletes t ht] at hwait
    rw [report_eq, (hdrains t ht).1.step_waiting hwait]
  · intro t ht hready
    rw [hcompletes t ht] at hready
    rw [report_eq, engineAt_succ, (hdrains t ht).1.step_answered hready]
    exact ⟨rfl, (hdrains t ht).1.lastError, rfl⟩

/-- An engine that has put the first of two bytes on the bus to be written, and has none of the
second yet. -/
def writing : Engine :=
  [⟨0x0010000000000000⟩, ⟨0x001b000000aa40c4⟩, .idle].foldl
    (fun e word => (e.step word .wait).1) (.new default)

/-- The next word is the last and brings nothing; after it a start is presented, and a word that
cannot be read. The target lets the engine wait once, and then refuses the byte. -/
def cutOff : Session Bus.Playback where
  engine := writing
  target := ⟨[.wait, ⟨0xffffffff, true, true⟩]⟩
  words t := [⟨0x0020000000000000⟩, ⟨0x0010000000000000⟩, ⟨0x0038000000000000⟩].getD t .idle

/-- The engine is still in the setup cycle of the write when the run fails. Neither the start nor
the refusal changes what is reported. -/
theorem drains_to_retirement_cutOff :
    cutOff.engine.Reachable default ∧ cutOff.engine.isDraining = false ∧
      cutOff.engine.bus.outstanding? = some ⟨0x40, .write 0xaa⟩ ∧ cutOff.completes 0 = false ∧
      cutOff.engine.CommandFails (cutOff.words 0) .incompleteOperation ∧
      cutOff.completes 1 = false ∧ cutOff.completes 2 = true ∧
      cutOff.Drains ⟨0x40, .write 0xaa⟩ .incompleteOperation := by
  have h : writing.Reachable default := .step (.step (.step .new _ _) _ _) _ _
  have hstage : cutOff.engine.stage = .executing (.write ⟨0x40, .byte, 1, false⟩) := rfl
  have hword : (cutOff.words 0).decode = .ok (.data .empty true) := rfl
  have hfail : cutOff.engine.CommandFails (cutOff.words 0) .incompleteOperation :=
    .cutOff hstage hword rfl (by decide)
  exact ⟨h, rfl, rfl, rfl, hfail, rfl, rfl, drains_to_retirement h rfl rfl rfl hfail⟩

end Session

end BusScript
