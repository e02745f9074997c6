import BusScript.Proofs.Engine.Parts
import BusScript.Proofs.Script.Codec

/-!
# What Every Engine State Satisfies

The stage of an engine and the phase of its bus are separate fields, and so are the counters of
an operation and the queue. `Engine.Sound` says how they belong together: a transaction is
outstanding only while an operation executes or a failed run drains, and it is the one that the
operation has just begun. Soundness is shown for each of the four parts of a cycle, whatever word
is presented and whatever the target answers, and hence for every cycle.

## Main results

* `Engine.Sound.retirement_cases` — a transaction that retires has an outcome for which there is a
  use.
* `Engine.sound_new`, `Engine.Sound.step` — a new engine is sound, and every cycle keeps it so.
-/

namespace BusScript

/-- How an operation in progress belongs to the outstanding transaction: it has begun one
transaction of its own kind, or none and has some left to begin. -/
def Activity.Fits : Activity → Option Bus.Transaction → Prop
  | .read t, none | .write t, none => 0 < t.remaining ∧ t.remaining ≤ Op.maxCount
  | .read t, some x => t.remaining < Op.maxCount ∧ x.isWrite = false
  | .write t, some x => t.remaining < Op.maxCount ∧ x.isWrite = true
  | .poll p, none => p.bit < 32 ∧ p.attempts < p.budget
  | .poll p, some x => p.bit < 32 ∧ 0 < p.attempts ∧ p.attempts ≤ p.budget ∧ x = ⟨p.address, .read⟩

/-- How a stage belongs to the outstanding transaction. -/
def Stage.Fits : Stage → Option Bus.Transaction → Prop
  | .executing a, outstanding => a.Fits outstanding
  | .draining verdict, outstanding => verdict = .errored ∧ outstanding.isSome = true
  | _, outstanding => outstanding = none

/-- Only a write still has bytes to take, and what it has begun is a write. -/
theorem Activity.Fits.isWrite_of_bytesNeeded {a : Activity} {t : Bus.Transaction} {n : Nat}
    (h : a.Fits (some t)) (hlt : n < a.bytesNeeded) : t.isWrite = true := by
  cases a with
  | read r => exact absurd hlt (Nat.not_lt_zero _)
  | write w => exact h.2
  | poll p => exact absurd hlt (Nat.not_lt_zero _)

/-- An operation begins with its transactions ahead of it. -/
theorem Activity.fits_of_ofHeader? {opcode operand : Byte} {header : Header} {a : Activity}
    {registers : Registers} (hd : Header.decode opcode operand = .ok header)
    (h : ofHeader? registers header = some a) : a.Fits none := by
  have hvalid := Op.valid_ofHeader hd []
  cases header with
  | set target value => simp [ofHeader?] at h
  | poll address bit untilSet =>
      cases h
      refine ⟨by simpa [Op.ofHeader, Op.Valid, Op.flaw?] using hvalid, ?_⟩
      simp only [Registers.pollBudget]
      omega
  | read address width count increment =>
      cases h
      exact Op.countFlaw?_eq_none_iff.mp hvalid
  | write address width count increment =>
      cases h
      have hcount := Op.countFlaw?_eq_none_iff.mp hvalid
      rwa [Op.length_values] at hcount

namespace Engine

/-- The stage of an engine fits its bus, and its queue is no longer than it may be. -/
structure Sound (e : Engine) : Prop where
  fits : e.stage.Fits e.bus.outstanding?
  queue_le : e.intake.queue.length ≤ Intake.capacity

variable {e : Engine}

/-- How a known stage belongs to the bus. -/
theorem Sound.fits_of (h : e.Sound) {stage : Stage} (hs : e.stage = stage) :
    stage.Fits e.bus.outstanding? :=
  hs ▸ h.fits

/-- A new engine is sound. -/
theorem sound_new (options : Options) : (new options).Sound :=
  ⟨rfl, Nat.zero_le _⟩

/-! ### Ending a run -/

/-- A run may end in any way while nothing is outstanding. -/
theorem sound_finish (h : e.bus.outstanding? = none) (verdict : Verdict)
    (error : Option RunError) : (e.finish verdict error).Sound := by
  have hidle := Bus.Master.isIdle_eq_true_iff.mpr h
  refine ⟨?_, Nat.zero_le _⟩
  simp only [finish, hidle, if_true]
  exact h

/-- A run may fail at any time. -/
theorem sound_fail (e : Engine) (error : RunError) : (e.fail error).Sound := by
  by_cases h : e.bus.outstanding? = none
  · exact sound_finish h _ _
  · have hbusy : ¬ e.bus.isIdle = true := fun hidle => h (Bus.Master.isIdle_eq_true_iff.mp hidle)
    refine ⟨?_, Nat.zero_le _⟩
    simp only [fail, finish, hbusy]
    exact ⟨rfl, Option.isSome_iff_ne_none.mpr h⟩

/-! ### The four parts of a cycle -/

/-- Only an operation in progress or a failed run has something outstanding. -/
theorem Sound.stage_of_outstanding (h : e.Sound) {t : Bus.Transaction}
    (ht : e.bus.outstanding? = some t) :
    (∃ a, e.stage = .executing a ∧ a.Fits (some t)) ∨ e.stage = .draining .errored := by
  cases hs : e.stage with
  | executing a => exact .inl ⟨a, rfl, ht ▸ h.fits_of hs⟩
  | draining verdict =>
      obtain ⟨rfl, -⟩ := h.fits_of hs
      exact .inr rfl
  | idle | header | completing | ended verdict =>
      have hnone : e.bus.outstanding? = none := h.fits_of hs
      rw [hnone] at ht
      cases ht

/-- A run that drains has something outstanding, so that only the bus decides whether a word can
be put up. -/
theorem Sound.canAccept_eq (h : e.Sound) : e.canAccept = e.bus.isIdle := by
  rw [canAccept, isDraining]
  cases hs : e.stage with
  | draining verdict =>
      have hsome : e.bus.outstanding?.isSome = true := (h.fits_of hs).2
      have hbusy : e.bus.isIdle = false := by
        rw [Bool.eq_false_iff, Ne, Bus.Master.isIdle_eq_true_iff]
        exact Option.isSome_iff_ne_none.mp hsome
      rw [hbusy]
      rfl
  | idle | header | executing a | completing | ended verdict => exact Bool.and_true _

/-- A transfer goes on to the next header when its last transaction has retired. -/
theorem fits_afterTransfer {a : Activity} {t : Transfer}
    (h : t.remaining ≠ 0 → a.Fits none) : (afterTransfer a t).Fits none := by
  rw [afterTransfer]
  split
  · rfl
  · exact h ‹_›

/-- The first part: a run that was reported is forgotten. -/
theorem Sound.rest (h : e.Sound) : e.rest.Sound := by
  refine ⟨?_, h.queue_le⟩
  have hfits := h.fits
  rw [Engine.rest]
  cases hs : e.stage <;> simp only [hs] at hfits ⊢ <;> exact hfits

/-- What a retirement finds: a run that drains, a fault, or an operation and an outcome of its
kind. -/
theorem Sound.retirement_cases {t : Bus.Transaction} {outcome : Bus.Outcome} {r : Bus.Response}
    (h : e.Sound) (ht : e.bus.outstanding? = some t) (hr : t.retire? r = some outcome) :
    e.stage = .draining .errored ∨
    (∃ a, e.stage = .executing a ∧ outcome = .fault) ∨
    (∃ x v, e.stage = .executing (.read x) ∧ (Activity.read x).Fits (some t) ∧
      t.isWrite = false ∧ outcome = .read v) ∨
    (∃ x, e.stage = .executing (.write x) ∧ (Activity.write x).Fits (some t) ∧
      outcome = .written) ∨
    (∃ p v, e.stage = .executing (.poll p) ∧ (Activity.poll p).Fits (some t) ∧
      outcome = .read v) := by
  rcases h.stage_of_outstanding ht with ⟨a, hs, hfits⟩ | hs
  · rcases Bus.Transaction.retire?_cases hr with rfl | ⟨hread, v, rfl⟩ | ⟨hwrite, rfl⟩
    · exact .inr (.inl ⟨a, hs, rfl⟩)
    · cases a with
      | read x => exact .inr (.inr (.inl ⟨x, v, hs, hfits, hread, rfl⟩))
      | write x => exact absurd hfits.2 (by simp [hread])
      | poll p => exact .inr (.inr (.inr (.inr ⟨p, v, hs, hfits, rfl⟩)))
    · cases a with
      | read x => exact absurd hfits.2 (by simp [hwrite])
      | write x => exact .inr (.inr (.inr (.inl ⟨x, hs, hfits, rfl⟩)))
      | poll p =>
          obtain ⟨-, -, -, rfl⟩ := hfits
          cases hwrite
  · exact .inl hs

/-- The effect of a retired transaction, which leaves the bus idle. -/
theorem Sound.retire {t : Bus.Transaction} {outcome : Bus.Outcome} {r : Bus.Response}
    (h : e.Sound) (ht : e.bus.outstanding? = some t) (hr : t.retire? r = some outcome) :
    (e.released.retire t outcome).1.Sound := by
  have hidle : e.released.bus.outstanding? = none := rfl
  have hqueue : e.released.intake.queue.length ≤ Intake.capacity := h.queue_le
  rcases h.retirement_cases ht hr with hs | ⟨a, hs, rfl⟩ | ⟨x, v, hs, hfits, -, rfl⟩ |
    ⟨x, hs, hfits, rfl⟩ | ⟨p, v, hs, hfits, rfl⟩
  all_goals change e.released.stage = _ at hs
  · rw [retire_draining hs]
    exact ⟨hidle, hqueue⟩
  · rw [retire_fault hs]
    exact sound_fail _ _
  · rw [retire_read hs]
    exact ⟨fits_afterTransfer fun hne => ⟨by omega, Nat.le_of_lt hfits.1⟩, hqueue⟩
  · rw [retire_written hs]
    exact ⟨fits_afterTransfer fun hne => ⟨by omega, Nat.le_of_lt hfits.1⟩, hqueue⟩
  · obtain ⟨hbit, hpos, hle, -⟩ := hfits
    rw [retire_poll hs]
    split
    · exact ⟨hidle, hqueue⟩
    · split
      · exact sound_finish hidle _ _
      · next hlt => exact ⟨⟨hbit, Nat.lt_of_not_le hlt⟩, hqueue⟩

/-- The second part: the bus moves on. -/
theorem Sound.settle (h : e.Sound) (answer : Bus.Response) : (e.settle answer).1.Sound := by
  rcases e.settle_cases answer with ⟨bus, hx, hout, -⟩ | ⟨t, outcome, ht, hr, hx⟩
  · rw [hx]
    exact ⟨by simpa only [hout] using h.fits, h.queue_le⟩
  · rw [hx]
    exact h.retire ht hr

/-- An attempt of a poll that is answered fails, ends the poll, is the last one, or is followed by a
pause. -/
theorem Sound.settle_poll (h : e.Sound) {p : Poll} (hs : e.stage = .executing (.poll p))
    {x : Bus.Transaction} (hp : e.bus.phase = .access x) {answer : Bus.Response}
    (hr : answer.ready = true) :
    e.settle answer =
      if answer.error then (e.released.fail (.busFault p.address false), none)
      else if p.isSatisfied answer.data then ({ e.released with stage := .header }, none)
      else if p.budget ≤ p.attempts then
        (e.released.finish .pollFailed (some (.pollExhausted p.address p.attempts)), none)
      else
        ({ e.released with
            stage := .executing (.poll { p with delay := e.registers.pollDelay.toNat }) },
          none) := by
  have hout : e.bus.outstanding? = some x := by rw [Bus.Master.outstanding?, hp]
  have hfits : (Activity.poll p).Fits (some x) := hout ▸ h.fits_of hs
  obtain ⟨-, -, -, rfl⟩ := hfits
  have hstage : e.released.stage = .executing (.poll p) := hs
  rw [settle_ready hp hr, Bus.Transaction.outcome]
  cases answer.error with
  | true => exact retire_fault hstage
  | false => exact retire_poll hstage answer.data

/-- The third part: the presented word is acted on. -/
theorem Sound.accept (h : e.Sound) (word : Command.Word) : (e.accept word).1.Sound := by
  rw [Engine.accept]
  split
  · exact h
  · exact h
  · split
    · exact sound_fail _ _
    · unfold Engine.obey
      split
      · exact h
      · next hs _ =>
        have hidle : e.bus.outstanding? = none := h.fits_of hs
        split <;> exact ⟨hidle, Nat.zero_le _⟩
      · exact sound_fail _ _
      · exact sound_fail _ _
      · exact ⟨h.fits, Intake.length_take_le _ _ _ h.queue_le⟩

/-- The decision of a cycle in which a header is awaited. -/
theorem Sound.readHeader (h : e.Sound) (hs : e.stage = .header) : e.readHeader.Sound := by
  have hidle : e.bus.outstanding? = none := h.fits_of hs
  rcases e.readHeader_cases with ⟨-, -, hx⟩ | ⟨opcode, operand, rest, hq, hx⟩ | ⟨b, -, -, hx⟩ |
    ⟨-, -, hx⟩
  · rw [hx]
    exact ⟨hidle, h.queue_le⟩
  · have hrest : rest.length ≤ Intake.capacity := by
      have hle := h.queue_le
      simp only [hq, List.length_cons] at hle
      omega
    rcases hx with ⟨error, -, hx⟩ | ⟨target, value, -, hx⟩ | ⟨header, a, hd, ha, hx⟩
    · rw [hx]
      exact sound_fail _ _
    · rw [hx]
      exact ⟨h.fits, hrest⟩
    · rw [hx]
      refine ⟨?_, hrest⟩
      simp only [hidle]
      exact Activity.fits_of_ofHeader? hd ha
  · rw [hx]
    exact sound_fail _ _
  · rw [hx]
    exact h

/-- The decision of a cycle in which an operation is in progress. -/
theorem Sound.execute (h : e.Sound) {a : Activity} (hs : e.stage = .executing a) :
    (e.execute a).Sound := by
  have hfits : a.Fits e.bus.outstanding? := h.fits_of hs
  rcases e.execute_cases a with ⟨-, -, hx⟩ | ⟨hx, -⟩ | ⟨hout, hx⟩
  · rw [hx]
    exact sound_fail _ _
  · rw [hx]
    exact h
  · rw [hout] at hfits
    rcases hx with ⟨t, rfl, hr, hx⟩ | ⟨t, rfl, hr, -, hx⟩ | ⟨p, rfl, -, hx⟩ | ⟨p, rfl, -, hx⟩
    · rw [hx]
      have := hfits.2
      exact ⟨⟨by simp only [Transfer.next]; omega, rfl⟩, h.queue_le⟩
    · rw [hx]
      have := hfits.2
      refine ⟨⟨by simp only [Transfer.next]; omega, rfl⟩, ?_⟩
      simp only [begin, List.length_drop]
      exact Nat.le_trans (Nat.sub_le _ _) h.queue_le
    · rw [hx]
      refine ⟨?_, h.queue_le⟩
      simp only [hout]
      exact hfits
    · rw [hx]
      exact ⟨⟨hfits.1, Nat.succ_pos _, hfits.2, rfl⟩, h.queue_le⟩

/-- The fourth part: the one decision of a cycle. -/
theorem Sound.act (h : e.Sound) : e.act.Sound := by
  rw [Engine.act]
  cases hs : e.stage with
  | header => exact h.readHeader hs
  | executing a => exact h.execute hs
  | completing => exact sound_finish (h.fits_of hs) _ _
  | idle | draining verdict | ended verdict => exact h

/-- **Soundness is kept by every cycle**, whatever is presented and answered. -/
theorem Sound.step (h : e.Sound) (word : Command.Word) (answer : Bus.Response) :
    (e.step word answer).1.Sound :=
  ((h.rest.settle answer).accept word).act

end Engine

end BusScript
