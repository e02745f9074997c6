import BusScript.Proofs.Engine.Compliance

/-!
# The Integrity of Engines

An engine keeps what it knows in separate fields, and parts of a cycle rely on how these belong
together: a transaction is begun without asking whether the bus is free, a retired one is expected
to be of the kind that the operation waits for, counters are counted down without a look at zero.
Each of these parts has a branch for the case that should not arise, in which it does nothing, so
that a mistake would show as a run that hangs or a value that is missing.

`Engine.Integrity` lists how the fields of an engine belong together between two cycles, and
`Engine.Unfailing` what can therefore not happen in the next one. Most of it is soundness, spelt
out; to that comes how large numbers can grow (`Engine.Bounded`).

## Main results

* `Engine.Bounded.step` — a cycle keeps the numbers of an engine within their bounds.
* `Engine.Reachable.keeps_integrity` — both lists hold of every engine that can be reached.
-/

namespace BusScript

/-! ### The lowest byte of the page -/

/-- Replacing an upper byte leaves the lowest one as it is. -/
theorem Registers.setWidth_replaceByte {shift : Nat} (h : 8 ≤ shift) (value : Value) (b : Byte) :
    (replaceByte value shift b).setWidth 8 = value.setWidth 8 := by
  apply BitVec.eq_of_getLsbD_eq
  intro i hi
  have hlow : i < shift := by omega
  have hlt : i < 32 := by omega
  simp [replaceByte, hi, hlow, hlt]

/-- No header sets the lowest byte of the address register. -/
theorem Header.le_shift_of_decode {opcode operand value : Byte} {target : RegisterByte}
    (h : decode opcode operand = .ok (.set target value)) (hpage : target.register = .address) :
    8 ≤ target.shift := by
  obtain ⟨register, index⟩ := target
  obtain rfl : register = .address := hpage
  have hindex : 1 ≤ index ∧ index < 4 := by
    simpa [Op.ofHeader, Op.Valid, Op.flaw?] using Op.valid_ofHeader h []
  have hsame : index % 4 = index := Nat.mod_eq_of_lt hindex.2
  simp only [RegisterByte.shift, hsame]
  omega

/-- So setting a register leaves that byte as it is. -/
theorem Registers.page_set {opcode operand value : Byte} {target : RegisterByte}
    (h : Header.decode opcode operand = .ok (.set target value)) (r : Registers) :
    (r.set target value).page.setWidth 8 = r.page.setWidth 8 := by
  rw [set]
  cases hr : target.register with
  | address => exact setWidth_replaceByte (Header.le_shift_of_decode h hr) _ _
  | pollDelay | pollCount => rfl

/-- A poll may have as many attempts as a register can count. -/
theorem Registers.pollBudget_lt (r : Registers) : r.pollBudget < UInt32.size := by
  have hlt := r.pollCount.isLt
  rw [pollBudget, UInt32.size]
  omega

/-- The poll that is in progress. -/
def Stage.poll? : Stage → Option Poll
  | .executing (.poll p) => some p
  | _ => none

/-- The outcomes that a stage has a use for: while draining any, and in an operation a fault or
the outcome of its kind. -/
def Stage.Handles : Stage → Bus.Outcome → Prop
  | .draining _, _ => True
  | .executing _, .fault => True
  | .executing (.read _), .read _ => True
  | .executing (.write _), .written => True
  | .executing (.poll _), .read _ => True
  | _, _ => False

namespace Engine

variable {e : Engine}

/-! ### Bounds -/

/-- The numbers that an engine counts with are within their bounds. -/
structure Bounded (e : Engine) : Prop where
  /-- The page has no lowest byte of its own. -/
  page : e.registers.page.setWidth 8 = 0
  /-- A poll has no more attempts than fit into 32 bits. -/
  budget : ∀ p, e.stage.poll? = some p → p.budget < UInt32.size

/-- Where there is no poll, only the page is bounded. -/
theorem bounded_of_no_poll (hpage : e.registers.page.setWidth 8 = 0) (hs : e.stage.poll? = none) :
    e.Bounded := by
  refine ⟨hpage, fun p hp => ?_⟩
  rw [hs] at hp
  cases hp

/-- A poll that goes on keeps its budget. -/
theorem bounded_of_poll (hpage : e.registers.page.setWidth 8 = 0) {p : Poll}
    (hs : e.stage = .executing (.poll p)) (hp : p.budget < UInt32.size) : e.Bounded := by
  refine ⟨hpage, fun q hq => ?_⟩
  rw [hs] at hq
  cases hq
  exact hp

theorem bounded_new (options : Options) : (new options).Bounded :=
  bounded_of_no_poll rfl rfl

/-- The budget of the poll in progress. -/
theorem Bounded.budget_of (h : e.Bounded) {p : Poll} (hs : e.stage = .executing (.poll p)) :
    p.budget < UInt32.size :=
  h.budget p (by rw [hs]; rfl)

/-- A run that ends leaves no poll. -/
theorem Bounded.finish (h : e.Bounded) (verdict : Verdict) (error : Option RunError) :
    (e.finish verdict error).Bounded := by
  refine bounded_of_no_poll h.page ?_
  rcases e.stage_finish verdict error with hs | hs <;> rw [hs] <;> rfl

theorem Bounded.rest (h : e.Bounded) : e.rest.Bounded := by
  refine ⟨h.page, fun p hp => h.budget p ?_⟩
  rw [Engine.rest] at hp
  cases hs : e.stage <;> simp only [hs] at hp <;> exact hp

/-- A retired transaction may set the pause of a poll, and leaves its budget. -/
theorem Bounded.retire (h : e.Bounded) (t : Bus.Transaction) (outcome : Bus.Outcome) :
    (e.retire t outcome).1.Bounded := by
  unfold Engine.retire
  split
  · exact bounded_of_no_poll h.page rfl
  · exact h.finish _ _
  · refine bounded_of_no_poll h.page ?_
    dsimp only [afterTransfer]
    split <;> rfl
  · refine bounded_of_no_poll h.page ?_
    dsimp only [afterTransfer]
    split <;> rfl
  · next p value hs =>
    split
    · exact bounded_of_no_poll h.page rfl
    · split
      · exact h.finish _ _
      · have hbudget := h.budget_of hs
        exact bounded_of_poll h.page rfl hbudget
  · exact h

theorem Bounded.settle (h : e.Bounded) (answer : Bus.Response) : (e.settle answer).1.Bounded := by
  have hreleased : e.released.Bounded := ⟨h.page, h.budget⟩
  rcases e.settle_cases answer with ⟨bus, hx, -⟩ | ⟨t, outcome, -, -, hx⟩
  · rw [hx]
    exact ⟨h.page, h.budget⟩
  · rw [hx]
    exact hreleased.retire t outcome

/-- A clearing start sets the page to zero. -/
theorem Bounded.accept (h : e.Bounded) (word : Command.Word) : (e.accept word).1.Bounded := by
  rcases e.accept_cases word with ⟨hx, -⟩ | ⟨error, hx⟩ | ⟨clear, -, -, hx⟩ |
    ⟨p, last, -, -, hx⟩
  · rw [hx]
    exact h
  · rw [hx]
    exact h.finish _ _
  · rw [hx]
    cases clear with
    | false => exact bounded_of_no_poll h.page rfl
    | true => exact bounded_of_no_poll rfl rfl
  · rw [hx]
    exact ⟨h.page, h.budget⟩

/-- A poll begins with a budget that a register has counted. -/
theorem Bounded.readHeader (h : e.Bounded) : e.readHeader.Bounded := by
  rcases e.readHeader_cases with ⟨-, -, hx⟩ | ⟨opcode, operand, rest, -, hx⟩ | ⟨b, -, -, hx⟩ |
    ⟨-, -, hx⟩
  · rw [hx]
    exact bounded_of_no_poll h.page rfl
  · have hpopped : ({ e with intake := { e.intake with queue := rest } } : Engine).Bounded :=
      ⟨h.page, h.budget⟩
    rcases hx with ⟨error, -, hx⟩ | ⟨target, value, hd, hx⟩ | ⟨header, a, -, ha, hx⟩
    · rw [hx]
      exact hpopped.finish _ _
    · rw [hx]
      refine ⟨?_, h.budget⟩
      rw [Registers.page_set hd]
      exact h.page
    · rw [hx]
      cases header with
      | set target value => cases ha
      | poll address bit untilSet =>
          cases ha
          exact bounded_of_poll h.page rfl e.registers.pollBudget_lt
      | read address width count increment | write address width count increment =>
          cases ha
          exact bounded_of_no_poll h.page rfl
  · rw [hx]
    exact h.finish _ _
  · rw [hx]
    exact h

theorem Bounded.execute (h : e.Bounded) {a : Activity} (hs : e.stage = .executing a) :
    (e.execute a).Bounded := by
  rcases e.execute_cases a with ⟨-, -, hx⟩ | ⟨hx, -⟩ | ⟨-, hx⟩
  · rw [hx]
    exact h.finish _ _
  · rw [hx]
    exact h
  · rcases hx with ⟨t, -, -, hx⟩ | ⟨t, -, -, -, hx⟩ | ⟨p, rfl, -, hx⟩ | ⟨p, rfl, -, hx⟩
    · rw [hx]
      exact bounded_of_no_poll h.page rfl
    · rw [hx]
      exact bounded_of_no_poll h.page rfl
    · have hbudget := h.budget_of hs
      rw [hx]
      exact bounded_of_poll h.page rfl hbudget
    · have hbudget := h.budget_of hs
      rw [hx]
      exact bounded_of_poll h.page rfl hbudget

theorem Bounded.act (h : e.Bounded) : e.act.Bounded := by
  rw [Engine.act]
  cases hs : e.stage with
  | header => exact h.readHeader
  | executing a => exact h.execute hs
  | completing => exact h.finish _ _
  | idle | draining verdict | ended verdict => exact h

/-- **Bounds are kept by every cycle**, whatever is presented and answered. -/
theorem Bounded.step (h : e.Bounded) (word : Command.Word) (answer : Bus.Response) :
    (e.step word answer).1.Bounded :=
  ((h.rest.settle answer).accept word).act

theorem Reachable.bounded {options : Options} (h : e.Reachable options) : e.Bounded := by
  induction h with
  | new => exact bounded_new options
  | step _ word answer ih => exact ih.step word answer

/-! ### Between two cycles -/

/-- How the fields of an engine belong together. -/
structure Integrity (e : Engine) : Prop where
  /-- A transaction is outstanding only while an operation is in progress or a run drains. -/
  stage_of_outstanding : e.bus.outstanding? ≠ none →
    (∃ a, e.stage = .executing a) ∨ ∃ verdict, e.stage = .draining verdict
  /-- A run that drains has failed, and has a transaction outstanding. -/
  draining : ∀ verdict, e.stage = .draining verdict →
    verdict = .errored ∧ e.bus.outstanding? ≠ none
  /-- A word can be put up exactly while the bus is idle. -/
  canAccept_eq : e.canAccept = e.bus.isIdle
  /-- A transfer has a bounded number of transactions left, and one at least while none is
  outstanding. -/
  remaining : ∀ t, e.stage = .executing (.read t) ∨ e.stage = .executing (.write t) →
    t.remaining ≤ Op.maxCount ∧ (e.bus.outstanding? = none → 1 ≤ t.remaining)
  /-- A poll has not used up its budget, which is not empty, before its last attempt, and watches
  a bit that a bus word has. -/
  poll : ∀ p, e.stage = .executing (.poll p) →
    1 ≤ p.budget ∧ p.attempts ≤ p.budget ∧
      (e.bus.outstanding? = none → p.attempts < p.budget) ∧ p.bit < 32
  /-- Exactly writes have a write outstanding. -/
  isWrite_iff : ∀ a t, e.stage = .executing a → e.bus.outstanding? = some t →
    (t.isWrite = true ↔ ∃ w, a = .write w)
  /-- The queue is no longer than it may be. -/
  queue_le : e.intake.queue.length ≤ Intake.capacity
  /-- The page has no lowest byte of its own. -/
  page : e.registers.page.setWidth 8 = 0

/-- Sound engines within their bounds. -/
theorem Sound.toIntegrity (h : e.Sound) (hbounded : e.Bounded) : e.Integrity where
  stage_of_outstanding hne := by
    obtain ⟨t, ht⟩ := Option.ne_none_iff_exists'.mp hne
    rcases h.stage_of_outstanding ht with ⟨a, hs, -⟩ | hs
    · exact .inl ⟨a, hs⟩
    · exact .inr ⟨_, hs⟩
  draining verdict hs := by
    obtain ⟨hverdict, hsome⟩ := h.fits_of hs
    exact ⟨hverdict, Option.isSome_iff_ne_none.mp hsome⟩
  canAccept_eq := h.canAccept_eq
  remaining t hs := by
    rcases hs with hs | hs
    all_goals
      have hfits := h.fits_of hs
      cases hout : e.bus.outstanding? with
      | none =>
          rw [hout] at hfits
          exact ⟨hfits.2, fun _ => hfits.1⟩
      | some x =>
          rw [hout] at hfits
          exact ⟨Nat.le_of_lt hfits.1, fun hnone => absurd hnone (Option.some_ne_none x)⟩
  poll p hs := by
    have hfits := h.fits_of hs
    cases hout : e.bus.outstanding? with
    | none =>
        rw [hout] at hfits
        obtain ⟨hbit, hlt⟩ := hfits
        exact ⟨by omega, by omega, fun _ => hlt, hbit⟩
    | some x =>
        rw [hout] at hfits
        obtain ⟨hbit, hpos, hle, -⟩ := hfits
        exact ⟨by omega, hle, fun hnone => absurd hnone (Option.some_ne_none x), hbit⟩
  isWrite_iff a t hs hout := by
    have hfits := h.fits_of hs
    rw [hout] at hfits
    cases a with
    | read r => simpa using hfits.2
    | write w => simpa using hfits.2
    | poll p =>
        obtain ⟨-, -, -, rfl⟩ := hfits
        simp [Bus.Transaction.isWrite]
  queue_le := h.queue_le
  page := hbounded.page

/-! ### Within a cycle -/

/-- What can be relied on within a cycle. -/
structure Unfailing (e : Engine) (word : Command.Word) (answer : Bus.Response) : Prop where
  /-- A transaction that retires has an outcome for which there is a use. -/
  handles : ∀ t outcome, (e.rest.bus.advance answer).2 = some (t, outcome) →
    e.rest.stage.Handles outcome
  /-- The room in the queue is its capacity less what it holds, and that is no more. -/
  room : (e.settled answer).intake.queue.length ≤ Intake.capacity
  /-- A transaction that is begun is accepted by the bus. -/
  issue : ∀ a, (e.deciding word answer).stage = .executing a →
    ((e.deciding word answer).execute a).bus = (e.deciding word answer).bus ∨
      ∃ t, (e.deciding word answer).bus.issue? t =
        some ((e.deciding word answer).execute a).bus
  /-- A transfer whose turn it is has a transaction left to begin. -/
  remaining : ∀ t, (e.deciding word answer).stage = .executing (.read t) ∨
      (e.deciding word answer).stage = .executing (.write t) →
    (e.deciding word answer).bus.isIdle = true → 1 ≤ t.remaining
  /-- A poll whose turn it is can count one more attempt. -/
  attempts : ∀ p, (e.deciding word answer).stage = .executing (.poll p) →
    (e.deciding word answer).bus.isIdle = true → p.attempts + 1 < UInt32.size

/-- The outcome of a transaction that an operation has begun is of its kind. -/
theorem Sound.handles (h : e.Sound) {answer : Bus.Response} {t : Bus.Transaction}
    {outcome : Bus.Outcome} (hr : (e.bus.advance answer).2 = some (t, outcome)) :
    e.stage.Handles outcome := by
  rcases e.bus.advance_cases answer with ⟨bus, hx, -⟩ | ⟨t', outcome', ht, hretire, hx⟩
  · rw [hx] at hr
    cases hr
  · rw [hx] at hr
    cases hr
    rcases h.retirement_cases ht hretire with hs | ⟨a, hs, rfl⟩ | ⟨x, v, hs, -, -, rfl⟩ |
      ⟨x, hs, -, rfl⟩ | ⟨p, v, hs, -, rfl⟩
    all_goals rw [hs]
    · trivial
    · cases a <;> trivial
    all_goals trivial

/-- Sound engines within their bounds make no mistake in a cycle: they are sound and within their
bounds at each point of it. -/
theorem Sound.unfailing (h : e.Sound) (hbounded : e.Bounded) (word : Command.Word)
    (answer : Bus.Response) : e.Unfailing word answer := by
  have hsettled : (e.settled answer).Sound := h.rest.settle answer
  have hdeciding : (e.deciding word answer).Sound := hsettled.accept word
  have hbounds : (e.deciding word answer).Bounded := (hbounded.rest.settle answer).accept word
  have hmid := hdeciding.toIntegrity hbounds
  refine ⟨fun t outcome hr => h.rest.handles hr, hsettled.queue_le, ?_, ?_, ?_⟩
  · intro a hs
    rcases (e.deciding word answer).bus_execute a with hsame | ⟨hout, t, hstart⟩
    · exact .inl hsame
    · refine .inr ⟨t, ?_⟩
      rw [Bus.Master.issue?, if_pos (Bus.Master.isIdle_eq_true_iff.mpr hout), hstart]
  · intro t hs hidle
    exact (hmid.remaining t hs).2 (Bus.Master.isIdle_eq_true_iff.mp hidle)
  · intro p hs hidle
    have hlt := (hmid.poll p hs).2.2.1 (Bus.Master.isIdle_eq_true_iff.mp hidle)
    have hbudget := hbounds.budget_of hs
    omega

/-- **Every engine that can be reached has its integrity**, and nothing fails in its next cycle,
whatever word is presented and whatever the target answers. -/
theorem Reachable.keeps_integrity {options : Options} (h : e.Reachable options) :
    e.Integrity ∧ ∀ word answer, e.Unfailing word answer :=
  ⟨h.sound.toIntegrity h.bounded, h.sound.unfailing h.bounded⟩

/-- An engine that has begun the first attempt of a poll: its words start a script and bring the
header of the poll, and its bus has been idle. -/
def polling : Engine :=
  [⟨0x0010000000000000⟩, ⟨0x001a000000002063⟩, .idle].foldl
    (fun e word => (e.step word .wait).1) (new default)

/-- The attempt is outstanding and counted, and the next cycle will not fail. -/
theorem Reachable.keeps_integrity_polling :
    polling.Reachable default ∧ polling.stage = .executing (.poll ⟨0x20, 3, true, 1, 1024, 0⟩) ∧
      polling.bus.outstanding? = some ⟨0x20, .read⟩ ∧
      polling.Integrity ∧ ∀ word answer, polling.Unfailing word answer := by
  have h : polling.Reachable default := .step (.step (.step .new _ _) _ _) _ _
  exact ⟨h, rfl, rfl, h.keeps_integrity⟩

end Engine

end BusScript
