import BusScript.Bus.Playback
import BusScript.Proofs.Command.Decoding
import BusScript.Proofs.Engine.Compliance
import BusScript.Proofs.Engine.Isolation

/-!
# What an Engine Sees of the Answers

A target drives its wires in every cycle, and most of what it drives is of no concern to the
engine. Only in the access cycles of a transaction does it look whether the target is ready. Only
when the target is, and the run has not failed already, does it look for an error; and of the value
that comes with a read it takes the bits that the operation is about: those of the width that is
read, or the one bit that is polled.

`Engine.Indifferent` says that two answers are the same in all of that. An engine that is
indifferent between the answers of two targets goes the same way with both, so nothing else that a
target drives can be found out from what the engine does.

## Main results

* `Engine.Indifferent.step_eq` — a cycle does not depend on what the engine does not look at.
* `Session.eq_of_indifferent` — neither does a session.
-/

namespace BusScript

/-- The bits that a stage uses of a value that has been read. -/
def Stage.Uses : Stage → Nat → Prop
  | .executing (.read t), i => i < t.width.bits
  | .executing (.poll p), i => i = p.bit
  | _, _ => False

/-- Values that agree on the bits of a width are masked to the same value. -/
theorem Width.and_mask_congr {w : Width} {v v' : Value}
    (h : ∀ i < w.bits, v.getLsbD i = v'.getLsbD i) : v &&& w.mask = v' &&& w.mask := by
  have hlow : v.setWidth w.bits = v'.setWidth w.bits := by
    apply BitVec.eq_of_getLsbD_eq
    intro i hi
    rw [BitVec.getLsbD_setWidth, BitVec.getLsbD_setWidth, h i hi]
  rw [and_mask, and_mask, hlow]

namespace Engine

/-- Two answers between which an engine sees no difference. In an access cycle both are ready or
neither is. If they are, and the run does not drain, both are errors or neither is; and if a read
then succeeds, the values agree on the bits that are used of them. -/
structure Indifferent (e : Engine) (r r' : Bus.Response) : Prop where
  ready : e.request.isAccess = true → r.ready = r'.ready
  error : e.request.isAccess = true → r.ready = true → e.isDraining = false → r.error = r'.error
  data : e.request.isAccess = true → r.ready = true → e.isDraining = false → r.error = false →
    e.request.write = false → ∀ i, e.stage.Uses i → r.data.getLsbD i = r'.data.getLsbD i

variable {e : Engine} {r r' : Bus.Response} {t : Bus.Transaction}

/-- Outside the access cycles of a transaction an engine sees nothing. -/
theorem indifferent_of_not_access (h : e.request.isAccess = false) : e.Indifferent r r' := by
  have hno : ¬ e.request.isAccess = true := Bool.eq_false_iff.mp h
  exact ⟨fun hyes => absurd hyes hno, fun hyes => absurd hyes hno, fun hyes => absurd hyes hno⟩

/-! ### One cycle -/

/-- While a run drains, every outcome has the same effect. -/
theorem retire_congr_of_draining (h : e.isDraining = true) (outcome outcome' : Bus.Outcome) :
    e.retire t outcome = e.retire t outcome' := by
  cases hs : e.stage with
  | draining verdict => rw [retire_draining hs, retire_draining hs]
  | idle | header | executing a | completing | ended verdict =>
      rw [isDraining, hs] at h
      cases h

/-- A value that has been read has its effect through the bits that are used of it. -/
theorem retire_read_congr {v v' : Value} (h : ∀ i, e.stage.Uses i → v.getLsbD i = v'.getLsbD i) :
    e.retire t (.read v) = e.retire t (.read v') := by
  cases hs : e.stage with
  | executing a =>
      rw [hs] at h
      cases a with
      | read x => rw [retire_read hs, retire_read hs, Width.and_mask_congr h]
      | write x => simp only [retire, hs]
      | poll p =>
          have hbit : p.isSatisfied v = p.isSatisfied v' := by
            rw [Poll.isSatisfied, Poll.isSatisfied, h p.bit rfl]
          rw [retire_poll hs, retire_poll hs, hbit]
  | idle | header | completing | draining verdict | ended verdict => simp only [retire, hs]

/-- Outside the access cycles an engine looks at nothing. -/
theorem settle_congr_of_not_access (h : e.request.isAccess = false) (r r' : Bus.Response) :
    e.settle r = e.settle r' := by
  obtain ⟨options, stage, intake, ⟨_ | t | t, issued⟩, registers, lastError⟩ := e
  · rfl
  · rfl
  · rw [Engine.request, Bus.Master.request, Bus.Transaction.isAccess_enabled] at h
    cases h

/-- The outcomes that an engine sees no difference between have the same effect. -/
theorem Indifferent.retire_eq (h : e.Indifferent r r') (hp : e.bus.phase = .access t)
    (hr : r.ready = true) :
    e.released.retire t (t.outcome r) = e.released.retire t (t.outcome r') := by
  have hrequest : e.request = t.enabled := Bus.Master.request_access hp
  have haccess : e.request.isAccess = true := by rw [hrequest, Bus.Transaction.isAccess_enabled]
  cases hdrain : e.isDraining with
  | true => exact retire_congr_of_draining (e := e.released) hdrain _ _
  | false =>
      have herror := h.error haccess hr hdrain
      obtain ⟨address, access⟩ := t
      rw [Bus.Transaction.outcome, Bus.Transaction.outcome, ← herror]
      cases hfault : r.error with
      | true => rfl
      | false =>
          cases access with
          | write v => rfl
          | read =>
              have hread : e.request.write = false := by
                rw [hrequest]
                rfl
              exact retire_read_congr (e := e.released) (h.data haccess hr hdrain hfault hread)

/-- The bus moves on in the same way with answers between which the engine sees no difference. -/
theorem Indifferent.settle_eq (h : e.Indifferent r r') : e.settle r = e.settle r' := by
  cases haccess : e.request.isAccess with
  | false => exact settle_congr_of_not_access haccess r r'
  | true =>
      obtain ⟨t, hp⟩ := Bus.Master.phase_of_isAccess haccess
      have hready := h.ready haccess
      cases hr : r.ready with
      | false => rw [settle_waiting hp hr, settle_waiting hp (hready.symm.trans hr)]
      | true =>
          rw [settle_ready hp hr, settle_ready hp (hready.symm.trans hr)]
          exact h.retire_eq hp hr

/-- Forgetting the run before does not sharpen the sight of an engine. -/
theorem Indifferent.rest (h : e.Indifferent r r') : e.rest.Indifferent r r' := by
  have hdraining : e.rest.isDraining = e.isDraining := by
    rw [isDraining, isDraining, Engine.rest]
    cases e.stage <;> rfl
  have huses : ∀ i, e.rest.stage.Uses i → e.stage.Uses i := by
    intro i
    rw [Engine.rest]
    cases e.stage with
    | ended verdict => exact False.elim
    | idle | header | executing a | completing | draining verdict => exact id
  refine ⟨h.ready, ?_, ?_⟩
  · rw [hdraining]
    exact h.error
  · rw [hdraining]
    intro haccess hready hdrain herror hread i hi
    exact h.data haccess hready hdrain herror hread i (huses i hi)

/-- **A cycle does not depend on what the engine does not look at.** -/
theorem Indifferent.step_eq (h : e.Indifferent r r') (word : Command.Word) :
    e.step word r = e.step word r' := by
  rw [step, step, h.rest.settle_eq]

end Engine

namespace Session

variable {τ τ' : Type} [Bus.Target τ] [Bus.Target τ'] {s : Session τ} {s' : Session τ'}

/-! ### Whole sessions -/

/-- As long as the engine sees no difference between the answers, there is none in the engine:
induction on the cycles. -/
theorem engineAt_eq (hengine : s.engine = s'.engine) (n : Nat)
    (hwords : ∀ t < n, s.words t = s'.words t)
    (h : ∀ t < n, (s.engineAt t).Indifferent (s.answer t) (s'.answer t)) :
    s.engineAt n = s'.engineAt n := by
  induction n with
  | zero => exact hengine
  | succ n ih =>
      have hnow := ih (fun t ht => hwords t (Nat.lt_succ_of_lt ht))
        fun t ht => h t (Nat.lt_succ_of_lt ht)
      rw [engineAt_succ, engineAt_succ, ← hnow, ← hwords n (Nat.lt_succ_self n),
        (h n (Nat.lt_succ_self n)).step_eq]

/-- **What the engine does not look at has no influence.** Take any engine, any words, and two
targets of any kind, such that in no cycle the engine sees a difference between their answers. Then
in every cycle it drives the same wires and reports the same with both, and keeps the same error
and can or cannot be presented a word. -/
theorem eq_of_indifferent (hengine : s.engine = s'.engine)
    (hwords : ∀ t, s.words t = s'.words t)
    (h : ∀ t, (s.engineAt t).Indifferent (s.answer t) (s'.answer t)) (t : Nat) :
    s.request t = s'.request t ∧ s.report t = s'.report t ∧
      (s.engineAt (t + 1)).lastError = (s'.engineAt (t + 1)).lastError ∧
      (s.engineAt (t + 1)).canAccept = (s'.engineAt (t + 1)).canAccept := by
  have hsame : ∀ n, s.engineAt n = s'.engineAt n := fun n =>
    engineAt_eq hengine n (fun t _ => hwords t) fun t _ => h t
  have hreport : s.report t = s'.report t := by
    rw [report_eq, report_eq, ← hsame t, ← hwords t, (h t).step_eq]
  refine ⟨?_, hreport, ?_, ?_⟩
  · rw [request, request, hsame t]
  · rw [hsame (t + 1)]
  · rw [hsame (t + 1)]

/-- Words of a run that reads a byte, polls a bit until it is clear, and is started again while
another read is on the bus. -/
def interrupted (t : Nat) : Command.Word :=
  [⟨0x0010000000000000⟩, ⟨0x001a000000001080⟩, .idle, .idle, ⟨0x001a000000002043⟩, .idle, .idle,
    ⟨0x001a000000003080⟩, .idle, ⟨0x0008000000000000⟩].getD t .idle

/-- The run against a memory, in which all words are zero. -/
def quiet : Session Bus.Memory := .new default {} interrupted

/-- The run against a target that drives ones wherever the engine does not look. -/
def noisy : Session Bus.Playback :=
  .new default
    ⟨[⟨0xffffff00, true, false⟩, ⟨0xfffffff7, true, false⟩, ⟨0xffffffff, true, true⟩]⟩ interrupted

/-- The two targets differ while the bus is idle, in a setup cycle, in the upper bits of a byte, in
the bits beside the one that is polled, and in the outcome of a read that is drained. The engine
does the same with both. -/
theorem eq_of_indifferent_noisy :
    quiet.answer 0 ≠ noisy.answer 0 ∧ quiet.answer 3 ≠ noisy.answer 3 ∧
      quiet.answer 4 ≠ noisy.answer 4 ∧ quiet.answer 7 ≠ noisy.answer 7 ∧
      quiet.answer 10 ≠ noisy.answer 10 ∧ quiet.status 11 = .ended .errored ∧
      ∀ t, quiet.request t = noisy.request t ∧ quiet.report t = noisy.report t ∧
        (quiet.engineAt (t + 1)).lastError = (noisy.engineAt (t + 1)).lastError ∧
        (quiet.engineAt (t + 1)).canAccept = (noisy.engineAt (t + 1)).canAccept := by
  refine ⟨by decide, by decide, by decide, by decide, by decide, rfl, ?_⟩
  have hsound : quiet.engine.Sound := Engine.sound_new default
  -- when the run has ended nothing more is started, so that the bus stays idle
  have hidle : ∀ t, 11 ≤ t → (quiet.request t).isAccess = false := by
    intro t hle
    obtain ⟨n, rfl⟩ := Nat.exists_eq_add_of_le hle
    have hrest : quiet.status (11 + n) ≠ .running := by
      refine (lifecycle hsound).not_running_of_not_starts (by decide) n ?_
      rintro k - ⟨-, clear, hstart⟩
      have hnone : quiet.words (11 + k) = .idle := by
        rw [Nat.add_comm]
        rfl
      rw [hnone, Command.Word.decode_idle] at hstart
      cases hstart
    rw [request, (quiet.sound hsound _).request_idle (by rwa [← status_eq])]
    rfl
  have hother : ∀ t < 11, t ≠ 4 ∧ t ≠ 7 ∧ t ≠ 10 → (quiet.request t).isAccess = false := by
    decide
  refine eq_of_indifferent rfl (fun _ => rfl) fun t => ?_
  obtain rfl | rfl | rfl | ⟨hlt, hne⟩ | hlate :
      t = 4 ∨ t = 7 ∨ t = 10 ∨ (t < 11 ∧ t ≠ 4 ∧ t ≠ 7 ∧ t ≠ 10) ∨ 11 ≤ t := by omega
  · exact ⟨by decide, by decide, fun _ _ _ _ _ => show ∀ i < 8, _ by decide⟩
  · exact ⟨by decide, by decide, fun _ _ _ _ _ i (hi : i = 3) => by subst hi; decide⟩
  · exact ⟨by decide, by decide, fun _ _ hdrain => absurd hdrain (by decide)⟩
  · exact Engine.indifferent_of_not_access (hother t hlt hne)
  · exact Engine.indifferent_of_not_access (hidle t hlate)

end Session

end BusScript
