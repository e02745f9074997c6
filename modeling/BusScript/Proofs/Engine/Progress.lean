import BusScript.Proofs.Bus.Waiting
import BusScript.Proofs.Command.Framed
import BusScript.Proofs.Engine.Compliance
import Mathlib.Data.Prod.Lex

/-!
# Engines Make Progress

Words, bytes, transactions and wait states are used up one by one, and what is used up of one kind
may bring more of the next: a word brings bytes, two bytes bring transactions, a transaction brings
wait states and pauses. So what an engine has before it is ordered **lexicographically**, by

* what the words to come weigh (`Command.weight`),
* the bytes in the queue,
* the transactions to begin and to end, and
* the cycles until the next of these (the last three are `Engine.load`).

A cycle against a memory makes that less, or it **stalls**: the engine lacks bytes, its bus is
idle, and either no word is presented or the intake rests after bytes that it has just taken. That
is the only way to wait for the outside.

## Main results

* `Engine.Sound.step_progress` — a cycle makes progress or stalls.
-/

namespace BusScript

namespace Command

/-! ### Words to come -/

/-- What words can still bring: each counts once, and with every byte in it. -/
def weight : List Word → Nat
  | [] => 0
  | w :: words => w.count.toNat + 1 + weight words

@[simp] theorem weight_append (words words' : List Word) :
    weight (words ++ words') = weight words + weight words' := by
  induction words with
  | nil => exact (Nat.zero_add _).symm
  | cons w words ih =>
      rw [List.cons_append, weight, weight, ih]
      exact (Nat.add_assoc _ _ _).symm

/-- What is left of a word is lighter if bytes were taken of it, or if nothing is left. -/
theorem weight_leftover?_lt {w : Word} {n : Nat} (h : w.leftover? n = none ∨ 0 < n) :
    weight (w.leftover? n).toList < weight [w] := by
  cases hleft : w.leftover? n with
  | none => exact Nat.succ_pos _
  | some w' =>
      obtain ⟨rfl, hne⟩ : w.consume n = w' ∧ (w.consume n).count ≠ 0 := by
        rw [Word.leftover?] at hleft
        split at hleft
        · split at hleft
          · cases hleft
          · exact ⟨Option.some.inj hleft, ‹_›⟩
        · cases hleft
      have hpos : 0 < n := h.resolve_left (by rw [hleft]; rintro ⟨⟩)
      have hcount := Word.toNat_count_consume w n
      have hsome : (w.consume n).count.toNat ≠ 0 := fun hz =>
        hne (BitVec.eq_of_toNat_eq (by simpa using hz))
      simp only [weight, Option.toList_some]
      omega

/-- Nothing that is left of a word is heavier than it. -/
theorem weight_leftover?_le (w : Word) (n : Nat) :
    weight (w.leftover? n).toList ≤ weight [w] := by
  by_cases h : w.leftover? n = none ∨ 0 < n
  · exact Nat.le_of_lt (weight_leftover?_lt h)
  · obtain ⟨hleft, hn⟩ := not_or.mp h
    obtain rfl : n = 0 := by omega
    have hcount := Word.toNat_count_consume w 0
    rw [Word.leftover?]
    split
    · split
      · exact Nat.zero_le _
      · simp only [weight, Option.toList_some]
        omega
    · exact Nat.zero_le _

end Command

/-! ### The load of an engine -/

/-- Two for every transaction to begin, above what a header takes. A run that is ending has
nothing to begin. -/
def Stage.work : Stage → Nat
  | .header => 1
  | .executing a => 2 * a.toBegin + 2
  | .idle | .completing | .draining _ | .ended _ => 0

/-- The cycles before a poll goes on. -/
def Stage.pause : Stage → Nat
  | .executing (.poll p) => p.delay
  | _ => 0

namespace Engine

/-- The work at hand: a transaction that has been begun has still to end. -/
def work (e : Engine) : Nat := e.stage.work + e.bus.outstanding?.toList.length

/-- The cycles until a transaction ends or a pause is over. -/
def time (e : Engine) (memory : Bus.Memory) : Nat := e.bus.due memory + e.stage.pause

/-- What an engine has before it without another word. -/
def load (e : Engine) (memory : Bus.Memory) : Nat ×ₗ Nat ×ₗ Nat :=
  toLex (e.intake.queue.length, toLex (e.work, e.time memory))

variable {e e' : Engine} {memory memory' : Bus.Memory}

theorem load_lt_of_queue (hq : e'.intake.queue.length < e.intake.queue.length) :
    e'.load memory' < e.load memory :=
  Prod.Lex.toLex_lt_toLex.mpr (.inl hq)

theorem load_lt_of_work (hq : e'.intake.queue.length ≤ e.intake.queue.length)
    (hw : e'.work < e.work) : e'.load memory' < e.load memory := by
  simp only [load, Prod.Lex.toLex_lt_toLex]
  omega

theorem load_lt_of_time (hq : e'.intake.queue.length ≤ e.intake.queue.length)
    (hw : e'.work ≤ e.work) (ht : e'.time memory' < e.time memory) :
    e'.load memory' < e.load memory := by
  simp only [load, Prod.Lex.toLex_lt_toLex]
  omega

theorem load_le (hq : e'.intake.queue.length ≤ e.intake.queue.length) (hw : e'.work ≤ e.work)
    (ht : e'.time memory' ≤ e.time memory) : e'.load memory' ≤ e.load memory := by
  simp only [load, Prod.Lex.toLex_le_toLex]
  omega

/-- A run that is ending has no operation before it. -/
theorem work_finish (e : Engine) (verdict : Verdict) (error : Option RunError) :
    (e.finish verdict error).stage.work = 0 ∧ (e.finish verdict error).stage.pause = 0 := by
  rcases e.stage_finish verdict error with hs | hs
  · rw [hs]
    exact ⟨rfl, rfl⟩
  · rw [hs]
    exact ⟨rfl, rfl⟩

/-- Failing adds nothing to the load. -/
theorem load_fail_le (e : Engine) (error : RunError) (memory : Bus.Memory) :
    (e.fail error).load memory ≤ e.load memory := by
  obtain ⟨hwork, hpause⟩ := e.work_finish .errored (some error)
  refine load_le (Nat.zero_le _) ?_ ?_
  · rw [work, work, fail, hwork]
    exact Nat.add_le_add_right (Nat.zero_le _) _
  · rw [time, time, fail, hpause]
    exact Nat.le_add_right _ _

/-! ### The parts of a cycle -/

/-- The first part changes nothing that counts. -/
theorem load_rest (hrun : ∀ verdict, e.stage ≠ .ended verdict) (memory : Bus.Memory) :
    e.rest.load memory = e.load memory := by
  rw [rest_eq hrun]
  rfl

/-- The effect of a retired transaction is no new work. -/
theorem work_retire_le (e : Engine) (t : Bus.Transaction) (outcome : Bus.Outcome) :
    (e.retire t outcome).1.intake.queue.length ≤ e.intake.queue.length ∧
      (e.retire t outcome).1.stage.work ≤ e.stage.work := by
  have htransfer : ∀ a x, (afterTransfer a x).work ≤ (Stage.executing a).work := by
    intro a x
    rw [afterTransfer]
    split
    · simp only [Stage.work]
      omega
    · exact Nat.le_refl _
  unfold retire
  split
  · next hs =>
    rw [hs]
    exact ⟨Nat.le_refl _, Nat.le_refl _⟩
  · have hfail := (e.work_finish .errored (some (.busFault t.address t.isWrite))).1
    refine ⟨Nat.zero_le _, ?_⟩
    dsimp only
    rw [fail, hfail]
    exact Nat.zero_le _
  · next hs =>
    rw [hs]
    exact ⟨Nat.le_refl _, htransfer _ _⟩
  · next hs =>
    rw [hs]
    exact ⟨Nat.le_refl _, htransfer _ _⟩
  · next p value hs =>
    rw [hs]
    split
    · exact ⟨Nat.le_refl _, by simp only [Stage.work]; omega⟩
    · split
      · have hfinish := (e.work_finish .pollFailed
          (some (.pollExhausted p.address p.attempts))).1
        refine ⟨Nat.zero_le _, ?_⟩
        dsimp only
        rw [hfinish]
        exact Nat.zero_le _
      · exact ⟨Nat.le_refl _, Nat.le_refl _⟩
  · exact ⟨Nat.le_refl _, Nat.le_refl _⟩

/-- The second part, while a transaction is outstanding: it ends, or fewer cycles are due. -/
theorem load_settle_lt {t : Bus.Transaction} (ht : e.bus.outstanding? = some t)
    (memory : Bus.Memory) :
    (e.settle (memory.respond e.request).1).1.load (memory.respond e.request).2 <
      e.load memory := by
  have hbus := e.bus_settle (memory.respond e.request).1
  have hpos := Bus.Master.due_pos ht memory
  rcases e.settle_cases (memory.respond e.request).1 with ⟨bus, hx, hout, -⟩ |
    ⟨x, outcome, -, -, hx⟩
  · rw [hx] at hbus ⊢
    have hdue : bus.due (memory.respond e.request).2 = e.bus.due memory - 1 := by
      rw [show bus = _ from hbus]
      exact e.bus.due_advance memory
    refine load_lt_of_time (Nat.le_refl _) ?_ ?_
    · rw [work, work, hout]
    · simp only [time, hdue]
      omega
  · rw [hx]
    obtain ⟨hqueue, hwork⟩ := e.released.work_retire_le x outcome
    refine load_lt_of_work hqueue ?_
    have hidle : (e.released.retire x outcome).1.bus.outstanding? = none := by
      rw [bus_retire]
      rfl
    rw [work, work, hidle, ht]
    exact Nat.lt_succ_of_le hwork

/-- The third part, when nothing is taken of the bytes that are presented: the run fails, or the
word is left where it is. That is because the run is ending, because its input is closed or full,
or because it rests. -/
theorem accept_of_leftover? {w w' : Command.Word} (hleft : w.leftover? (e.accept w).2 = some w')
    (hn : (e.accept w).2 = 0) :
    (∃ error, (e.accept w).1 = e.fail error) ∨
    ((e.accept w).1 = e ∧ ((∃ verdict, e.stage = .draining verdict ∨ e.stage = .ended verdict) ∨
      e.stage ≠ .idle ∧ (e.intake.closed = true ∨ e.intake.resting = true ∨
        e.intake.pulsed = true ∨ Intake.capacity ≤ e.intake.queue.length))) := by
  rcases e.accept_cases w with ⟨hx, hidle | hending⟩ | ⟨error, hx⟩ | ⟨clear, -, hd, -⟩ |
    ⟨p, last, hs, hd, hx⟩
  · rw [Command.Word.leftover?_of_not_isData hidle rfl] at hleft
    cases hleft
  · exact .inr ⟨by rw [hx], .inl hending⟩
  · exact .inl ⟨error, by rw [hx]⟩
  · rw [Command.Word.leftover?_of_not_isData hd (by cases clear <;> rfl)] at hleft
    cases hleft
  · rw [hn, Command.Word.leftover?_data hd] at hleft
    have hp : p.length ≠ 0 := by
      intro hz
      rw [hz] at hleft
      cases hleft
    rw [hx] at hn
    obtain ⟨htake, hwhy⟩ := Intake.take_of_count_eq_zero hp hn
    exact .inr ⟨by rw [hx, htake], .inr ⟨hs, hwhy⟩⟩

/-- An engine whose input is open, so that it may wait for words. -/
def Awaits (e : Engine) : Prop :=
  match e.stage with
  | .idle => True
  | .header | .executing _ => e.intake.closed = false
  | .completing | .draining _ | .ended _ => False

/-- A run that is ending waits for nothing. -/
theorem not_awaits_finish (e : Engine) (verdict : Verdict) (error : Option RunError) :
    ¬ (e.finish verdict error).Awaits := by
  rw [Awaits]
  rcases e.stage_finish verdict error with hs | hs
  · rw [hs]
    exact id
  · rw [hs]
    exact id

/-- While a run is in progress, that its input is open is all. -/
theorem Awaits.closed (h : e.Awaits) (hs : e.stage ≠ .idle) : e.intake.closed = false := by
  rw [Awaits] at h
  cases hstage : e.stage with
  | idle => exact absurd hstage hs
  | header | executing a =>
      rw [hstage] at h
      exact h
  | completing | draining verdict | ended verdict =>
      rw [hstage] at h
      exact h.elim

theorem awaits_executing {a : Activity} (hs : e.stage = .executing a) :
    e.Awaits ↔ e.intake.closed = false := by
  rw [Awaits, hs]

theorem awaits_header (hs : e.stage = .header) : e.Awaits ↔ e.intake.closed = false := by
  rw [Awaits, hs]

/-- An engine that lacks a start or bytes. There is room for them in its queue. -/
structure Starved (e : Engine) : Prop where
  awaits : e.Awaits
  room : e.stage ≠ .idle → e.intake.queue.length < 4

/-- Reading a header uses up bytes or completes the run, unless bytes are missing. -/
theorem readHeader_progress (hs : e.stage = .header) (memory : Bus.Memory) :
    e.readHeader.load memory < e.load memory ∨ e.readHeader = e ∧ e.Starved := by
  rcases e.readHeader_cases with ⟨-, -, hx⟩ | ⟨opcode, operand, rest, hq, hx⟩ | ⟨b, hq, -, hx⟩ |
    ⟨hopen, hshort, hx⟩
  · left
    rw [hx]
    refine load_lt_of_work (Nat.le_refl _) ?_
    simp only [work, hs, Stage.work]
    omega
  · left
    have hlt : rest.length < e.intake.queue.length := by
      rw [hq, List.length_cons, List.length_cons]
      omega
    rcases hx with ⟨error, -, hx⟩ | ⟨target, value, -, hx⟩ | ⟨header, a, -, -, hx⟩
    · rw [hx]
      exact load_lt_of_queue (Nat.lt_of_le_of_lt (Nat.zero_le _) hlt)
    · rw [hx]
      exact load_lt_of_queue hlt
    · rw [hx]
      exact load_lt_of_queue hlt
  · left
    rw [hx]
    refine load_lt_of_queue ?_
    rw [hq]
    exact Nat.one_pos
  · exact .inr ⟨hx, (awaits_header hs).mpr hopen, fun _ => by omega⟩

/-- An operation between two transactions has one to begin. -/
theorem toBegin_pos {a : Activity} (h : a.Fits none) : 0 < a.toBegin := by
  cases a with
  | read t => exact h.1
  | write t => exact h.1
  | poll p => exact Nat.sub_pos_of_lt h.2

/-- Moving an operation on begins a transaction, fails or counts a pause down, unless it waits for
its transaction or for bytes. -/
theorem Sound.execute_progress (h : e.Sound) {a : Activity} (hs : e.stage = .executing a)
    (memory : Bus.Memory) :
    (e.execute a).load memory < e.load memory ∨
      e.execute a = e ∧ (e.bus.outstanding? ≠ none ∨ e.Starved) := by
  have hfits : a.Fits e.bus.outstanding? := h.fits_of hs
  rcases e.execute_cases a with ⟨-, -, hx⟩ | ⟨hx, hwhy⟩ | ⟨hout, hx⟩
  · left
    rw [hx]
    refine load_lt_of_work (Nat.zero_le _) ?_
    have hwork := (e.work_finish .errored (some .incompleteOperation)).1
    have hbus : (e.fail .incompleteOperation).bus = e.bus := rfl
    rw [work, work, hbus, fail, hwork, hs, Stage.work]
    omega
  · refine .inr ⟨hx, ?_⟩
    rcases hwhy with hbusy | hzero | ⟨t, rfl, hopen, hlt⟩
    · exact .inl hbusy
    · left
      intro hout
      rw [hout] at hfits
      have := toBegin_pos hfits
      omega
    · right
      have hfour := t.width.bytes_le_four
      exact ⟨(awaits_executing hs).mpr hopen, fun _ => by omega⟩
  · left
    rw [hout] at hfits
    have hpos := toBegin_pos hfits
    have hdue := Bus.Master.due_eq_zero hout memory
    rcases hx with ⟨t, rfl, -, hx⟩ | ⟨t, rfl, -, hlen, hx⟩ | ⟨p, rfl, hdelay, hx⟩ |
      ⟨p, rfl, -, hx⟩
    · rw [hx]
      refine load_lt_of_work (Nat.le_refl _) ?_
      simp only [Activity.toBegin] at hpos
      simp only [work, begin, Bus.Master.start, Bus.Master.outstanding?, Option.toList_some,
        List.length_cons, List.length_nil, hs, Stage.work, Activity.toBegin, Transfer.next]
      omega
    · rw [hx]
      refine load_lt_of_queue ?_
      have hbytes := t.width.bytes_pos
      simp only [begin, List.length_drop]
      omega
    · rw [hx]
      refine load_lt_of_time (Nat.le_refl _) ?_ ?_
      · simp only [work, hs, Stage.work, Activity.toBegin]
        omega
      · simp only [time, hdue, hs, Stage.pause]
        omega
    · rw [hx]
      refine load_lt_of_work (Nat.le_refl _) ?_
      simp only [Activity.toBegin] at hpos
      simp only [work, begin, Bus.Master.start, Bus.Master.outstanding?, Option.toList_some,
        List.length_cons, List.length_nil, hs, Stage.work, Activity.toBegin]
      omega

/-- The fourth part makes the load less or ends the run, unless the engine waits for its
transaction or lacks something. -/
theorem Sound.act_progress (h : e.Sound) (memory : Bus.Memory) :
    e.act.load memory < e.load memory ∨ (∃ verdict, e.act.stage = .ended verdict) ∨
      e.act = e ∧ (e.bus.outstanding? ≠ none ∨ e.Starved) := by
  rw [Engine.act]
  cases hs : e.stage with
  | header =>
      rcases readHeader_progress hs memory with hlt | ⟨hx, hstarved⟩
      · exact .inl hlt
      · exact .inr (.inr ⟨hx, .inr hstarved⟩)
  | executing a =>
      rcases h.execute_progress hs memory with hlt | hx
      · exact .inl hlt
      · exact .inr (.inr hx)
  | completing =>
      have hidle := Bus.Master.isIdle_eq_true_iff.mpr (h.fits_of hs)
      exact .inr (.inl ⟨.completed, if_pos hidle⟩)
  | idle =>
      refine .inr (.inr ⟨rfl, .inr ⟨?_, fun h => absurd hs h⟩⟩)
      rw [Awaits, hs]
      trivial
  | draining verdict =>
      have hsome : e.bus.outstanding?.isSome = true := (h.fits_of hs).2
      exact .inr (.inr ⟨rfl, .inl (Option.isSome_iff_ne_none.mp hsome)⟩)
  | ended verdict => exact .inr (.inl ⟨verdict, hs⟩)

/-! ### A whole cycle -/

/-- What an engine has before it, with words still to be presented. -/
def demand (e : Engine) (memory : Bus.Memory) (words : List Command.Word) :
    Nat ×ₗ Nat ×ₗ Nat ×ₗ Nat :=
  toLex (Command.weight words, e.load memory)

/-- A cycle in which an engine did nothing for want of words: `held` was presented to it, and
`left` is left of that. If that is a word, the intake was at rest. -/
structure Stalls (e : Engine) (held : Option Command.Word) (e' : Engine)
    (left : Option Command.Word) : Prop where
  outstanding : e.bus.outstanding? = none
  starved : e'.Starved
  pulsed : e'.intake.pulsed = false
  resting : held = none ∧ left = none ∨
    held.isSome = true ∧ left.isSome = true ∧ e.intake.pulsed = true

/-- Words that become lighter, and a load that becomes less while they do not become heavier, make
the demand less. -/
theorem demand_lt {words words' : List Command.Word}
    (h : Command.weight words' < Command.weight words ∨
      Command.weight words' ≤ Command.weight words ∧ e'.load memory' < e.load memory) :
    e'.demand memory' words' < e.demand memory words := by
  rw [demand, demand, Prod.Lex.toLex_lt_toLex]
  rcases h with hlt | ⟨hle, hlt⟩
  · exact .inl hlt
  · rcases Nat.lt_or_eq_of_le hle with h | h
    · exact .inl h
    · exact .inr ⟨h, hlt⟩

theorem demand_le {words words' : List Command.Word}
    (hle : Command.weight words' ≤ Command.weight words)
    (hload : e'.load memory' ≤ e.load memory) :
    e'.demand memory' words' ≤ e.demand memory words := by
  rw [demand, demand, Prod.Lex.toLex_le_toLex]
  rcases Nat.lt_or_eq_of_le hle with h | h
  · exact .inl h
  · exact .inr ⟨h, hload⟩

section Step

variable {held : Option Command.Word}

/-- Nothing that is left of what was presented is heavier than it. -/
theorem weight_bind_leftover?_le (held : Option Command.Word) (n : Nat) :
    Command.weight (held.bind (·.leftover? n)).toList ≤ Command.weight held.toList := by
  cases held with
  | none => exact Nat.le_refl _
  | some w => exact Command.weight_leftover?_le w n

/-- Why an engine that lacks bytes is presented none that it takes: there are none, or its intake
rests. -/
def Denied (e : Engine) (held left : Option Command.Word) : Prop :=
  held = none ∧ left = none ∨
    held.isSome = true ∧ left.isSome = true ∧ (e.intake.resting = true ∨ e.intake.pulsed = true)

/-- The third part when the words become no lighter: the run fails, or nothing changes. -/
theorem accept_progress (e : Engine) (held : Option Command.Word) {e' : Engine} {n : Nat}
    (hx : e.accept (held.getD .idle) = (e', n)) :
    Command.weight (held.bind (·.leftover? n)).toList < Command.weight held.toList ∨
    (∃ error, e' = e.fail error) ∨
    (e' = e ∧ (e.Starved → e.Denied held (held.bind (·.leftover? n)))) := by
  cases held with
  | none =>
      rw [Option.getD_none, accept_idle Command.Word.decode_idle] at hx
      cases hx
      exact .inr (.inr ⟨rfl, fun _ => .inl ⟨rfl, rfl⟩⟩)
  | some w =>
      rw [Option.getD_some] at hx
      rw [Option.bind_some]
      by_cases hlight : w.leftover? n = none ∨ 0 < n
      · exact .inl (Command.weight_leftover?_lt hlight)
      · obtain ⟨hleft, hn⟩ := not_or.mp hlight
        obtain ⟨w', hleft⟩ := Option.ne_none_iff_exists'.mp hleft
        obtain rfl : n = 0 := by omega
        have hstuck := accept_of_leftover?
          (show w.leftover? (e.accept w).2 = some w' by rw [hx]; exact hleft) (by rw [hx])
        rw [hx] at hstuck
        rcases hstuck with hfail | ⟨hsame, hwhy⟩
        · exact .inr (.inl hfail)
        · refine .inr (.inr ⟨hsame, fun hstarved => .inr ⟨rfl, by rw [hleft]; rfl, ?_⟩⟩)
          rcases hwhy with ⟨verdict, hs | hs⟩ | ⟨hs, hwhy⟩
          · simpa [Awaits, hs] using hstarved.awaits
          · simpa [Awaits, hs] using hstarved.awaits
          · have hopen := hstarved.awaits.closed hs
            have hroom := hstarved.room hs
            rcases hwhy with hclosed | hrest | hpulse | hfull
            · simp [hopen] at hclosed
            · exact .inl hrest
            · exact .inr hpulse
            · simp only [Intake.capacity] at hfull
              omega

/-- The last two parts: the run ends, the words become lighter, the load becomes less, or nothing
changes. The last happens only while a transaction is outstanding or the engine lacks something. -/
theorem Sound.accept_act_progress (h : e.Sound) (memory : Bus.Memory) {e₁ : Engine} {n : Nat}
    (hx : e.accept (held.getD .idle) = (e₁, n)) :
    (∃ verdict, e₁.act.stage = .ended verdict) ∨
    Command.weight (held.bind (·.leftover? n)).toList < Command.weight held.toList ∨
    e₁.act.load memory < e.load memory ∨
    (e₁.act.load memory ≤ e.load memory ∧ (e.bus.outstanding? ≠ none ∨
      e₁.act = e ∧ e.Starved ∧ e.Denied held (held.bind (·.leftover? n)))) := by
  have hsound : e₁.Sound := by
    have hs := h.accept (held.getD .idle)
    rw [hx] at hs
    exact hs
  have hbus : e₁.bus = e.bus := by
    have hb := e.bus_accept (held.getD .idle)
    rw [hx] at hb
    exact hb
  rcases accept_progress e held hx with hlight | hheavy
  · exact .inr (.inl hlight)
  · have hload : e₁.load memory ≤ e.load memory := by
      rcases hheavy with ⟨error, rfl⟩ | ⟨rfl, -⟩
      · exact load_fail_le e error memory
      · exact le_refl _
    rcases hsound.act_progress memory with hlt | hended | ⟨hact, hwhy⟩
    · exact .inr (.inr (.inl (lt_of_lt_of_le hlt hload)))
    · exact .inl hended
    · rw [hact]
      refine .inr (.inr (.inr ⟨hload, ?_⟩))
      rcases hwhy with hbusy | hstarved
      · exact .inl (by rw [← hbus]; exact hbusy)
      · rcases hheavy with ⟨error, rfl⟩ | ⟨rfl, hdenied⟩
        · exact absurd hstarved.awaits (not_awaits_finish _ _ _)
        · exact .inr ⟨rfl, hstarved, hdenied hstarved⟩

/-- Against which memory a load is counted matters only while a transaction is outstanding. -/
theorem load_eq_of_outstanding_eq_none (h : e.bus.outstanding? = none)
    (memory memory' : Bus.Memory) : e.load memory = e.load memory' := by
  rw [load, load, time, time, Bus.Master.due_eq_zero h, Bus.Master.due_eq_zero h]

/-- The first two parts: the bus moves on if a transaction is outstanding, and otherwise nothing
happens to it. -/
theorem rest_settle_progress (hrun : ∀ verdict, e.stage ≠ .ended verdict)
    (memory : Bus.Memory) :
    (e.rest.settle (memory.respond e.request).1).1.load (memory.respond e.request).2 <
      e.load memory ∨
    e.bus.outstanding? = none ∧ (e.rest.settle (memory.respond e.request).1).1 = e.rest ∧
      e.rest.load (memory.respond e.request).2 = e.load memory := by
  have hrest := load_rest hrun memory
  cases hout : e.bus.outstanding? with
  | none =>
      refine .inr ⟨rfl, ?_, ?_⟩
      · rw [settle_of_outstanding_eq_none (e := e.rest) hout]
      · rw [load_eq_of_outstanding_eq_none (e := e.rest) hout _ memory, hrest]
  | some t =>
      left
      rw [← hrest]
      exact load_settle_lt (e := e.rest) hout memory

/-- **A cycle makes progress or stalls.** Unless it ends the run, a cycle against a memory target
makes what is before the engine less, or it changes nothing of that because the engine lacks
words. -/
theorem Sound.step_progress (h : e.Sound) (hrun : ∀ verdict, e.stage ≠ .ended verdict)
    {report : Report} (hx : e.step (held.getD .idle) (memory.respond e.request).1 = (e', report))
    (hopen : ∀ verdict, e'.stage ≠ .ended verdict) (words : List Command.Word) :
    e'.demand (memory.respond e.request).2
        ((held.bind (·.leftover? report.consumed)).toList ++ words) <
      e.demand memory (held.toList ++ words) ∨
    (e'.demand (memory.respond e.request).2
        ((held.bind (·.leftover? report.consumed)).toList ++ words) ≤
      e.demand memory (held.toList ++ words) ∧
      e.Stalls held e' (held.bind (·.leftover? report.consumed))) := by
  have hsettle := rest_settle_progress hrun memory
  have hsound := h.rest.settle (memory.respond e.request).1
  obtain ⟨e₂, result, e₃, hs, ha, rfl⟩ := step_parts hx
  rw [hs] at hsettle hsound
  have hweight : Command.weight ((held.bind (·.leftover? report.consumed)).toList ++ words) ≤
      Command.weight (held.toList ++ words) := by
    rw [Command.weight_append, Command.weight_append]
    exact Nat.add_le_add_right (weight_bind_leftover?_le held report.consumed) _
  have hle : e₂.load (memory.respond e.request).2 ≤ e.load memory := by
    rcases hsettle with hlt | ⟨-, rfl, heq⟩
    · exact le_of_lt hlt
    · exact le_of_eq heq
  rcases hsound.accept_act_progress (memory.respond e.request).2 ha with ⟨verdict, hended⟩ |
    hlight | hlt | ⟨hsame, hwhy⟩
  · exact absurd hended (hopen verdict)
  · left
    refine demand_lt (.inl ?_)
    rw [Command.weight_append, Command.weight_append]
    exact Nat.add_lt_add_right hlight _
  · exact .inl (demand_lt (.inr ⟨hweight, lt_of_lt_of_le hlt hle⟩))
  · rcases hsettle with hmoved | ⟨hout, rfl, -⟩
    · exact .inl (demand_lt (.inr ⟨hweight, lt_of_le_of_lt hsame hmoved⟩))
    · refine .inr ⟨demand_le hweight (le_trans hsame hle), ?_⟩
      rcases hwhy with hbusy | ⟨hact, hstarved, hdenied⟩
      · exact absurd hout hbusy
      · rw [hact]
        refine ⟨hout, hstarved, rfl, ?_⟩
        rcases hdenied with hnone | ⟨hheld, hleft, hrest | hpulse⟩
        · exact .inl hnone
        · exact .inr ⟨hheld, hleft, hrest⟩
        · cases hpulse

end Step

end Engine

end BusScript
