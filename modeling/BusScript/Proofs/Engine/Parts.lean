import BusScript.Engine.Basic
import BusScript.Proofs.Bus.Completion

/-!
# What Each Part of a Cycle Does

The parts of a cycle, `Engine.settle`, `Engine.accept` and `Engine.act`, are nested case
distinctions. Here each is opened once, into the list of things it can do with the conditions
under which it does them; what holds of every engine is proved from these lists.

## Main results

* `Intake.take_eq`, `Intake.popValue?_eq` — what goes into the intake queue and comes out of it.
* `Engine.settle_cases` — nothing retires, or the outstanding transaction does; the equations
  `Engine.retire_draining` to `Engine.retire_poll` say what then happens.
* `Engine.readHeader_cases`, `Engine.execute_cases` — the one decision of a cycle.
-/

namespace BusScript

namespace Intake

variable {i : Intake}

/-- Two bytes are taken exactly when two are there. -/
theorem pop?_two (i : Intake) :
    (∃ a b rest, i.queue = a :: b :: rest ∧ i.pop? 2 = some ([a, b], { i with queue := rest })) ∨
      (i.queue.length ≤ 1 ∧ i.pop? 2 = none) := by
  rw [pop?]
  rcases hq : i.queue with _ | ⟨a, _ | ⟨b, rest⟩⟩
  · exact .inr ⟨by simp, by simp⟩
  · exact .inr ⟨by simp, by simp⟩
  · exact .inl ⟨a, b, rest, rfl, by simp⟩

/-- A value is taken if it has four bytes at most and they are there. -/
theorem popValue?_eq (i : Intake) (width : Nat) :
    i.popValue? width =
      if width ≤ 4 ∧ width ≤ i.queue.length then
        some (LittleEndian.ofBytes 32 (i.queue.take width),
          { i with queue := i.queue.drop width })
      else none := by
  rw [popValue?, pop?]
  by_cases hwidth : width ≤ 4
  · by_cases hlength : width ≤ i.queue.length
    · rw [if_pos hwidth, if_pos hlength, if_pos ⟨hwidth, hlength⟩]
      rfl
    · rw [if_pos hwidth, if_neg hlength, if_neg fun h => hlength h.2]
      rfl
  · rw [if_neg hwidth, if_neg fun h => hwidth h.1]

/-- A value of one of the widths is taken exactly when its bytes are there. -/
theorem popValue?_bytes (i : Intake) (width : Width) :
    i.popValue? width.bytes =
      if width.bytes ≤ i.queue.length then
        some (LittleEndian.ofBytes 32 (i.queue.take width.bytes),
          { i with queue := i.queue.drop width.bytes })
      else none := by
  have hle : width.bytes ≤ 4 := by cases width <;> decide
  rw [popValue?_eq]
  simp only [hle, true_and]

/-- How many bytes of a payload are taken: as many as there are, as the lanes carry and as there is
room for, if the input is open and neither flag is set, and otherwise none. -/
def quota (i : Intake) (p : Command.Payload) : Nat :=
  if i.closed = false ∧ i.pulsed = false ∧ i.resting = false then
    min p.length (min lanes (capacity - i.queue.length))
  else 0

/-- **A payload that is offered**, in one equation: the bytes that are taken go to the end of the
queue, the input closes if they are all of the last payload, and a flag is set if there are any. -/
theorem take_eq (i : Intake) (p : Command.Payload) (last : Bool) :
    i.take p last =
      ({ i with
          queue := i.queue ++ p.bytes.take (i.quota p)
          closed := i.closed || (last && i.quota p == p.length)
          pulsed := i.pulsed || i.quota p != 0 }, i.quota p) := by
  obtain ⟨queue, closed, pulsed, resting⟩ := i
  cases closed with
  | true => simp [take, quota]
  | false =>
      by_cases hlength : p.length = 0
      · have hempty : p.bytes.isEmpty = true := List.isEmpty_iff_length_eq_zero.mpr hlength
        simp [take, quota, hempty, hlength]
      · have hempty : p.bytes.isEmpty = false :=
          Bool.eq_false_iff.mpr fun h => hlength (List.isEmpty_iff_length_eq_zero.mp h)
        unfold take
        dsimp only
        rw [hempty]
        cases hdue : (resting || pulsed) with
        | true =>
            have hquota : quota ⟨queue, false, pulsed, resting⟩ p = 0 := by
              refine if_neg ?_
              rintro ⟨-, rfl, rfl⟩
              cases hdue
            simp [hquota, Ne.symm hlength]
        | false =>
            obtain ⟨rfl, rfl⟩ := Bool.or_eq_false_iff.mp hdue
            have hquota : quota ⟨queue, false, false, false⟩ p =
                min p.length (min lanes (capacity - queue.length)) := if_pos ⟨rfl, rfl, rfl⟩
            rw [← hquota]
            by_cases hnone : quota ⟨queue, false, false, false⟩ p = 0
            · simp [hnone, Ne.symm hlength]
            · simp [hnone]

theorem quota_le_length (i : Intake) (p : Command.Payload) : i.quota p ≤ p.length := by
  rw [quota]
  split
  · exact Nat.min_le_left _ _
  · exact Nat.zero_le _

/-- What is taken from a payload goes to the end of the queue, and the input closes with the
last byte of the last payload. -/
theorem take_cases (hopen : i.closed = false) (p : Command.Payload) (last : Bool) :
    ∃ i' n, i.take p last = (i', n) ∧ n ≤ p.length ∧
      i'.queue = i.queue ++ p.bytes.take n ∧ i'.closed = (last && n == p.length) := by
  refine ⟨_, _, i.take_eq p last, i.quota_le_length p, rfl, ?_⟩
  dsimp only
  rw [hopen, Bool.false_or]

/-- Bytes of which none are taken leave the queue as it is: its input is closed, it rests after
bytes that were taken, or it has no room. -/
theorem take_of_count_eq_zero {p : Command.Payload} {last : Bool} (hp : p.length ≠ 0)
    (h : (i.take p last).2 = 0) :
    i.take p last = (i, 0) ∧
      (i.closed = true ∨ i.resting = true ∨ i.pulsed = true ∨ capacity ≤ i.queue.length) := by
  rw [take_eq] at h ⊢
  have hquota : i.quota p = 0 := h
  have hpart : (0 == p.length) = false := beq_eq_false_iff_ne.mpr (Ne.symm hp)
  refine ⟨by simp [hquota, hpart], ?_⟩
  rw [quota] at hquota
  split at hquota
  · rw [lanes] at hquota
    exact .inr (.inr (.inr (by omega)))
  · next hbusy =>
    cases hclosed : i.closed with
    | true => exact .inl rfl
    | false =>
        cases hresting : i.resting with
        | true => exact .inr (.inl rfl)
        | false =>
            cases hpulsed : i.pulsed with
            | true => exact .inr (.inr (.inl rfl))
            | false => exact absurd ⟨hclosed, hpulsed, hresting⟩ hbusy

/-- An input to which bytes are offered stays open only if it was, and if something is left of
bytes that would close it. -/
theorem open_of_take {p : Command.Payload} {last : Bool} (h : (i.take p last).1.closed = false) :
    i.closed = false ∧ (last = true → (i.take p last).2 < p.length) := by
  rw [take_eq] at h ⊢
  obtain ⟨hopen, hpart⟩ := Bool.or_eq_false_iff.mp h
  refine ⟨hopen, fun hlast => ?_⟩
  rw [hlast, Bool.true_and, beq_eq_false_iff_ne] at hpart
  exact Nat.lt_of_le_of_ne (i.quota_le_length p) hpart

end Intake

/-- The transactions that an operation may still begin. -/
def Activity.toBegin : Activity → Nat
  | .read t | .write t => t.remaining
  | .poll p => p.budget - p.attempts

namespace Engine

variable {e : Engine}

/-! ### Ending a run -/

/-- A run that ends does so at once, or with its outstanding transaction. -/
theorem stage_finish (e : Engine) (verdict : Verdict) (error : Option RunError) :
    (e.finish verdict error).stage = .ended verdict ∨
      (e.finish verdict error).stage = .draining verdict := by
  rw [finish]
  dsimp only
  split
  · exact .inl rfl
  · exact .inr rfl

/-! ### Forgetting the run before -/

/-- An engine whose run has not ended only moves its input on. -/
theorem rest_eq (h : ∀ verdict, e.stage ≠ .ended verdict) :
    e.rest = { e with intake := e.intake.tick } := by
  rw [Engine.rest]
  cases hs : e.stage with
  | ended verdict => exact absurd hs (h verdict)
  | idle | header | executing a | completing | draining verdict => rfl

/-! ### Settling the bus -/

/-- The engine after its outstanding transaction has left the bus. -/
def released (e : Engine) : Engine :=
  { e with bus := { e.bus with phase := .idle } }

/-- The bus moves on without a retirement, or the outstanding transaction retires. -/
theorem settle_cases (e : Engine) (answer : Bus.Response) :
    (∃ bus, e.settle answer = ({ e with bus }, none) ∧ bus.outstanding? = e.bus.outstanding? ∧
      bus.issued = e.bus.issued) ∨
    (∃ t outcome, e.bus.outstanding? = some t ∧ t.retire? answer = some outcome ∧
      e.settle answer = e.released.retire t outcome) := by
  rw [settle]
  rcases e.bus.advance_cases answer with ⟨bus, hadv, hout, hissued⟩ | ⟨t, outcome, ht, hr, hadv⟩
  · exact .inl ⟨bus, by rw [hadv], hout, hissued⟩
  · exact .inr ⟨t, outcome, ht, hr, by rw [hadv]; rfl⟩

/-- Nothing happens while nothing is outstanding. -/
theorem settle_of_outstanding_eq_none (h : e.bus.outstanding? = none) (answer : Bus.Response) :
    e.settle answer = (e, none) := by
  obtain ⟨options, stage, intake, ⟨_ | t | t, issued⟩, registers, lastError⟩ := e
  · rfl
  · cases h
  · cases h

section Phases

variable {t : Bus.Transaction} {answer : Bus.Response}

/-- A setup cycle is over, whatever the answer. -/
theorem settle_setup (hp : e.bus.phase = .setup t) (answer : Bus.Response) :
    e.settle answer = ({ e with bus := ⟨.access t, e.bus.issued⟩ }, none) := by
  simp only [settle, Bus.Master.advance, hp]

/-- An access cycle in which the target is not ready changes nothing. -/
theorem settle_waiting (hp : e.bus.phase = .access t) (hr : answer.ready = false) :
    e.settle answer = (e, none) := by
  have hretire : t.retire? answer = none := by rw [t.retire?_eq, hr]; rfl
  simp only [settle, Bus.Master.advance, hp, hretire]

/-- An access cycle in which the target is ready ends the transaction. -/
theorem settle_ready (hp : e.bus.phase = .access t) (hr : answer.ready = true) :
    e.settle answer = e.released.retire t (t.outcome answer) := by
  have hretire : t.retire? answer = some (t.outcome answer) := by rw [t.retire?_eq, hr]; rfl
  simp only [settle, Bus.Master.advance, hp, hretire]
  rfl

end Phases

section Retire

variable {t : Bus.Transaction}

/-- While draining, the outcome does not matter. -/
theorem retire_draining {verdict : Verdict} (hs : e.stage = .draining verdict)
    (outcome : Bus.Outcome) :
    e.retire t outcome = ({ e with stage := .ended verdict }, none) := by
  simp [retire, hs]

/-- A fault ends the run. -/
theorem retire_fault {a : Activity} (hs : e.stage = .executing a) :
    e.retire t .fault = (e.fail (.busFault t.address t.isWrite), none) := by
  simp [retire, hs]

/-- A value that was read is reported. -/
theorem retire_read {r : Transfer} (hs : e.stage = .executing (.read r)) (value : Value) :
    e.retire t (.read value) =
      ({ e with stage := afterTransfer (.read r) r }, some ⟨r.width, value &&& r.width.mask⟩) := by
  simp [retire, hs]

/-- A value has been written. -/
theorem retire_written {w : Transfer} (hs : e.stage = .executing (.write w)) :
    e.retire t .written = ({ e with stage := afterTransfer (.write w) w }, none) := by
  simp [retire, hs]

/-- A polled value ends the poll, ends the run, or is followed by a pause. -/
theorem retire_poll {p : Poll} (hs : e.stage = .executing (.poll p)) (value : Value) :
    e.retire t (.read value) =
      if p.isSatisfied value then ({ e with stage := .header }, none)
      else if p.budget ≤ p.attempts then
        (e.finish .pollFailed (some (.pollExhausted p.address p.attempts)), none)
      else
        ({ e with stage := .executing (.poll { p with delay := e.registers.pollDelay.toNat }) },
          none) := by
  simp [retire, hs]

end Retire

/-! ### Taking a word -/

/-- A word that asks for nothing changes nothing. -/
theorem accept_idle {w : Command.Word} (hw : w.decode = .ok .idle) : e.accept w = (e, 0) := by
  rw [accept, hw]
  split <;> rfl

/-- A word that carries bytes, while a script runs. -/
theorem accept_data {w : Command.Word} {p : Command.Payload} {last : Bool}
    (hs : e.stage = .header ∨ ∃ a, e.stage = .executing a) (hw : w.decode = .ok (.data p last)) :
    e.accept w =
      ({ e with intake := (e.intake.take p last).1 }, (e.intake.take p last).2) := by
  rw [accept, hw]
  rcases hs with hs | ⟨a, hs⟩ <;> simp only [hs, obey]

/-- No word is taken while a run is ending. -/
theorem accept_ending {w : Command.Word} {verdict : Verdict}
    (hs : e.stage = .draining verdict ∨ e.stage = .ended verdict) : e.accept w = (e, 0) := by
  rcases hs with hs | hs <;> rw [accept, hs]

/-- What presenting a word can do: nothing, because it asks for nothing or the run is ending; end
the run, or refuse to begin one; begin a run; or offer bytes to the input of a run. -/
theorem accept_cases (e : Engine) (word : Command.Word) :
    (e.accept word = (e, 0) ∧
      (word.decode = .ok .idle ∨
        ∃ verdict, e.stage = .draining verdict ∨ e.stage = .ended verdict)) ∨
    (∃ error, e.accept word = (e.fail error, 0)) ∨
    (∃ clear, e.stage = .idle ∧ word.decode = .ok (.start clear) ∧
      e.accept word = ({ e with
        registers := if clear then .initial e.options else e.registers
        lastError := if clear then none else e.lastError
        intake := e.intake.reset
        stage := .header }, 0)) ∨
    (∃ p last, e.stage ≠ .idle ∧ word.decode = .ok (.data p last) ∧
      e.accept word =
        ({ e with intake := (e.intake.take p last).1 }, (e.intake.take p last).2)) := by
  unfold accept
  split
  · next hs => exact .inl ⟨rfl, .inr ⟨_, .inl hs⟩⟩
  · next hs => exact .inl ⟨rfl, .inr ⟨_, .inr hs⟩⟩
  · cases hd : word.decode with
    | error error => exact .inr (.inl ⟨_, rfl⟩)
    | ok command =>
        dsimp only
        unfold obey
        split
        · exact .inl ⟨rfl, .inl rfl⟩
        · next clear hs =>
          refine .inr (.inr (.inl ⟨clear, hs, rfl, ?_⟩))
          cases clear <;> rfl
        · exact .inr (.inl ⟨_, rfl⟩)
        · exact .inr (.inl ⟨_, rfl⟩)
        · next p last hs => exact .inr (.inr (.inr ⟨p, last, hs, rfl, rfl⟩))

/-! ### Deciding -/

/-- What reading a header can do: complete a closed and empty input, take two bytes and act on
the header that they are, give up on a single last byte, or wait. -/
theorem readHeader_cases (e : Engine) :
    (e.intake.closed = true ∧ e.intake.queue = [] ∧
      e.readHeader = { e with stage := .completing }) ∨
    (∃ opcode operand rest, e.intake.queue = opcode :: operand :: rest ∧
      ((∃ error, Header.decode opcode operand = .error error ∧
        e.readHeader =
          ({ e with intake := { e.intake with queue := rest } } : Engine).fail
            (.undecodable error)) ∨
      (∃ target value, Header.decode opcode operand = .ok (.set target value) ∧
        e.readHeader = { e with
          intake := { e.intake with queue := rest }
          registers := e.registers.set target value }) ∨
      (∃ header a, Header.decode opcode operand = .ok header ∧
        Activity.ofHeader? e.registers header = some a ∧
        e.readHeader = { e with
          intake := { e.intake with queue := rest }
          stage := .executing a }))) ∨
    (∃ b, e.intake.queue = [b] ∧ e.intake.closed = true ∧
      e.readHeader = e.fail .incompleteOperation) ∨
    (e.intake.closed = false ∧ e.intake.queue.length ≤ 1 ∧ e.readHeader = e) := by
  rw [readHeader]
  rcases e.intake.pop?_two with ⟨opcode, operand, rest, hq, hpop⟩ | ⟨hshort, hpop⟩
  · refine .inr (.inl ⟨opcode, operand, rest, hq, ?_⟩)
    rw [if_neg (by simp [hq]), hpop]
    dsimp only
    cases hd : Header.decode opcode operand with
    | error error => exact .inl ⟨error, rfl, rfl⟩
    | ok header =>
        cases header with
        | set target value => exact .inr (.inl ⟨target, value, rfl, rfl⟩)
        | poll address bit untilSet => exact .inr (.inr ⟨_, _, rfl, rfl, rfl⟩)
        | read address width count increment => exact .inr (.inr ⟨_, _, rfl, rfl, rfl⟩)
        | write address width count increment => exact .inr (.inr ⟨_, _, rfl, rfl, rfl⟩)
  · rw [hpop]
    cases hc : e.intake.closed with
    | false => exact .inr (.inr (.inr ⟨rfl, hshort, by simp⟩))
    | true =>
        rcases hq : e.intake.queue with _ | ⟨b, _ | ⟨b', rest⟩⟩
        · exact .inl ⟨rfl, rfl, by simp⟩
        · exact .inr (.inr (.inl ⟨b, rfl, rfl, by simp⟩))
        · simp [hq] at hshort

/-- What moving an operation on can do: give it up for want of bytes, wait, count a pause down,
or begin the next transaction on an idle bus. It waits for the outstanding transaction, or for
the bytes of a value that may still come. -/
theorem execute_cases (e : Engine) (a : Activity) :
    (e.intake.closed = true ∧ e.intake.queue.length < a.bytesNeeded ∧
      e.execute a = e.fail .incompleteOperation) ∨
    (e.execute a = e ∧ (e.bus.outstanding? ≠ none ∨ a.toBegin = 0 ∨
      ∃ t, a = .write t ∧ e.intake.closed = false ∧ e.intake.queue.length < t.width.bytes)) ∨
    (e.bus.outstanding? = none ∧
      ((∃ t, a = .read t ∧ t.remaining ≠ 0 ∧
        e.execute a = e.begin ⟨t.address, .read⟩ (.read (t.next e.options.stride))) ∨
      (∃ t, a = .write t ∧ t.remaining ≠ 0 ∧ t.width.bytes ≤ e.intake.queue.length ∧
        e.execute a =
          ({ e with intake.queue := e.intake.queue.drop t.width.bytes } : Engine).begin
            ⟨t.address, .write (LittleEndian.ofBytes 32 (e.intake.queue.take t.width.bytes))⟩
            (.write (t.next e.options.stride))) ∨
      (∃ p, a = .poll p ∧ 0 < p.delay ∧
        e.execute a = { e with stage := .executing (.poll { p with delay := p.delay - 1 }) }) ∨
      (∃ p, a = .poll p ∧ p.delay = 0 ∧
        e.execute a =
          e.begin ⟨p.address, .read⟩ (.poll { p with attempts := p.attempts + 1 })))) := by
  unfold execute
  by_cases hcut : (e.intake.closed && decide (e.intake.queue.length < a.bytesNeeded)) = true
  · rw [if_pos hcut]
    obtain ⟨hclosed, hlt⟩ : e.intake.closed = true ∧ e.intake.queue.length < a.bytesNeeded := by
      simpa using hcut
    exact .inl ⟨hclosed, hlt, rfl⟩
  · rw [if_neg hcut]
    by_cases hidle : e.bus.isIdle = true
    · rw [if_neg (by simp [hidle])]
      have hout := Bus.Master.isIdle_eq_true_iff.mp hidle
      cases a with
      | read t =>
          by_cases hr : t.remaining = 0
          · exact .inr (.inl ⟨if_pos hr, .inr (.inl hr)⟩)
          · exact .inr (.inr ⟨hout, .inl ⟨t, rfl, hr, if_neg hr⟩⟩)
      | write t =>
          by_cases hr : t.remaining = 0
          · exact .inr (.inl ⟨if_pos hr, .inr (.inl hr)⟩)
          · dsimp only
            rw [if_neg hr, Intake.popValue?_bytes]
            by_cases hlen : t.width.bytes ≤ e.intake.queue.length
            · rw [if_pos hlen]
              exact .inr (.inr ⟨hout, .inr (.inl ⟨t, rfl, hr, hlen, rfl⟩)⟩)
            · rw [if_neg hlen]
              have hlt : e.intake.queue.length < t.width.bytes := by omega
              -- one value is missing already, so a closed input would have been noticed
              have hneeded : t.width.bytes ≤ (Activity.write t).bytesNeeded :=
                Nat.le_mul_of_pos_left _ (Nat.pos_of_ne_zero hr)
              have hopen : e.intake.closed = false := by
                simpa [Nat.lt_of_lt_of_le hlt hneeded] using hcut
              exact .inr (.inl ⟨rfl, .inr (.inr ⟨t, rfl, hopen, hlt⟩)⟩)
      | poll p =>
          by_cases hd : 0 < p.delay
          · exact .inr (.inr ⟨hout, .inr (.inr (.inl ⟨p, rfl, hd, if_pos hd⟩))⟩)
          · exact .inr (.inr ⟨hout, .inr (.inr (.inr ⟨p, rfl, by omega, if_neg hd⟩))⟩)
    · have hbusy : e.bus.outstanding? ≠ none :=
        fun hout => hidle (Bus.Master.isIdle_eq_true_iff.mpr hout)
      exact .inr (.inl ⟨if_pos (by simpa using hidle), .inl hbusy⟩)

/-! ### A whole cycle -/

/-- The engine in the middle of a cycle, when the bus has moved on. -/
def settled (e : Engine) (answer : Bus.Response) : Engine := (e.rest.settle answer).1

/-- The engine in the middle of a cycle, when the presented word has been taken and the decision
is to be made. -/
def deciding (e : Engine) (word : Command.Word) (answer : Bus.Response) : Engine :=
  ((e.settled answer).accept word).1

/-- What the parts of a cycle come to. -/
theorem step_parts {e' : Engine} {word : Command.Word} {answer : Bus.Response} {report : Report}
    (hx : e.step word answer = (e', report)) :
    ∃ e₁ result e₂, e.rest.settle answer = (e₁, result) ∧
      e₁.accept word = (e₂, report.consumed) ∧ e' = e₂.act := by
  rcases hs : e.rest.settle answer with ⟨e₁, result⟩
  rcases ha : e₁.accept word with ⟨e₂, n⟩
  rw [step, hs] at hx
  simp only [ha] at hx
  cases hx
  exact ⟨e₁, result, e₂, rfl, ha, rfl⟩

end Engine

end BusScript
