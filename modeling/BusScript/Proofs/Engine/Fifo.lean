import BusScript.Proofs.Engine.Parts
import Mathlib.Data.Nat.Count

/-!
# The Intake Queue Loses Nothing

Five calls act on the intake queue: the beginning of a cycle, a payload that is offered, bytes or a
value that are taken out, and a reset. However they follow upon each other, what has been taken in
since the last reset comes out again, in order, and the queue holds no more than eight bytes. Bytes
are taken in whenever the input is open and none have been since the last tick but one. The queue
keeps two flags for that, which no reset touches.

## Main results

* `Intake.released_append_queue` — no call but a reset loses a byte.
* `Intake.History.flags_iff` — what the flags of the queue say of the calls before.
* `Intake.History.closed_iff` — when the input is closed.
* `Intake.History.queue_lossless` — **the queue is bounded and loses nothing**.
-/

namespace BusScript.Intake

/-! ### One call -/

/-- What is asked of a queue. -/
inductive Call where
  /-- To begin a cycle. -/
  | tick
  /-- To take bytes of a payload, the last one of its script if `last` is set. -/
  | take (p : Command.Payload) (last : Bool)
  /-- To hand out a number of bytes. -/
  | pop (n : Nat)
  /-- To hand out a value of a number of bytes. -/
  | popValue (width : Nat)
  /-- To drop everything. -/
  | reset
  deriving DecidableEq, Repr

/-- The queue after a call. A pop that is refused leaves it as it is. -/
def call (i : Intake) : Call → Intake
  | .tick => i.tick
  | .take p last => (i.take p last).1
  | .pop n => ((i.pop? n).map Prod.snd).getD i
  | .popValue width => ((i.popValue? width).map Prod.snd).getD i
  | .reset => i.reset

/-- How many bytes a call takes in. -/
def count (i : Intake) : Call → Nat
  | .take p last => (i.take p last).2
  | _ => 0

/-- The bytes that a call takes in, which are the first ones of its payload. -/
def received (i : Intake) : Call → List Byte
  | .take p last => p.bytes.take (i.take p last).2
  | _ => []

/-- The bytes that a call hands out, the lowest one of a value first. -/
def released (i : Intake) : Call → List Byte
  | .pop n => ((i.pop? n).map Prod.fst).getD []
  | .popValue width =>
    ((i.popValue? width).map fun out => LittleEndian.toBytes width out.1).getD []
  | _ => []

theorem call_take (i : Intake) (p : Command.Payload) (last : Bool) :
    i.call (.take p last) =
      { i with
        queue := i.queue ++ p.bytes.take (i.quota p)
        closed := i.closed || (last && i.quota p == p.length)
        pulsed := i.pulsed || i.quota p != 0 } :=
  congrArg Prod.fst (i.take_eq p last)

theorem count_take (i : Intake) (p : Command.Payload) (last : Bool) :
    i.count (.take p last) = i.quota p :=
  congrArg Prod.snd (i.take_eq p last)

/-- Bytes are refused exactly if there are not as many. -/
theorem pop?_eq_none_iff {i : Intake} {n : Nat} : i.pop? n = none ↔ i.queue.length < n := by
  rw [pop?]
  split
  · exact iff_of_false (by rintro ⟨⟩) (by omega)
  · exact iff_of_true rfl (by omega)

/-- A value is refused exactly if it is too wide or its bytes are not there. -/
theorem popValue?_eq_none_iff {i : Intake} {width : Nat} :
    i.popValue? width = none ↔ 4 < width ∨ i.queue.length < width := by
  rw [popValue?_eq]
  split
  · exact iff_of_false (by rintro ⟨⟩) (by omega)
  · exact iff_of_true rfl (by omega)

/-- As many bytes are handed out as were asked for. -/
theorem length_of_pop? {i : Intake} {n : Nat} {out : List Byte × Intake}
    (h : i.pop? n = some out) : out.1.length = n := by
  rw [pop?] at h
  split at h
  · cases h
    rw [List.length_take]
    omega
  · cases h

/-- **No call but a reset loses a byte.** -/
theorem released_append_queue (i : Intake) {c : Call} (hc : c ≠ .reset) :
    i.released c ++ (i.call c).queue = i.queue ++ i.received c := by
  cases c with
  | tick => exact (List.append_nil i.queue).symm
  | take p last =>
      have hreceived : i.received (.take p last) = p.bytes.take (i.quota p) := by
        rw [received, take_eq]
      rw [call_take, hreceived]
      rfl
  | pop n =>
      unfold released call received
      dsimp only
      rw [pop?]
      split
      · simp
      · simp
  | popValue width =>
      unfold released call received
      dsimp only
      rw [popValue?_eq]
      split
      · next h =>
        have hlength : (i.queue.take width).length = width := by
          rw [List.length_take]
          omega
        have hbytes := LittleEndian.toBytes_ofBytes 32 (i.queue.take width) (by omega)
        rw [hlength] at hbytes
        simp [hbytes]
      · simp
  | reset => exact absurd rfl hc

/-- The queue never grows beyond its capacity. -/
theorem length_call_le {i : Intake} (h : i.queue.length ≤ capacity) (c : Call) :
    (i.call c).queue.length ≤ capacity := by
  have hshorter : ∀ c : Call, c ≠ .reset → i.received c = [] →
      (i.call c).queue.length ≤ capacity := by
    intro c hc hnone
    have hkept := congrArg List.length (i.released_append_queue hc)
    rw [hnone, List.append_nil, List.length_append] at hkept
    omega
  cases c with
  | tick => exact hshorter .tick (by rintro ⟨⟩) rfl
  | take p last => exact length_take_le i p last h
  | pop n => exact hshorter (.pop n) (by rintro ⟨⟩) rfl
  | popValue width => exact hshorter (.popValue width) (by rintro ⟨⟩) rfl
  | reset => exact Nat.zero_le _

/-- What is handed out is missing in the queue, and nothing else changes. -/
theorem exists_call_pop (i : Intake) (n : Nat) : ∃ queue, i.call (.pop n) = { i with queue } := by
  unfold call
  dsimp only
  rw [pop?]
  split
  · exact ⟨_, rfl⟩
  · exact ⟨i.queue, rfl⟩

theorem exists_call_popValue (i : Intake) (width : Nat) :
    ∃ queue, i.call (.popValue width) = { i with queue } := by
  unfold call
  dsimp only
  rw [popValue?_eq]
  split
  · exact ⟨_, rfl⟩
  · exact ⟨i.queue, rfl⟩

/-- Only a tick and bytes that are taken in change the flags. -/
theorem flags_call (i : Intake) {c : Call} (hc : c ≠ .tick) :
    (i.call c).pulsed = (i.pulsed || i.count c != 0) ∧ (i.call c).resting = i.resting := by
  cases c with
  | tick => exact absurd rfl hc
  | take p last =>
      rw [call_take, count_take]
      exact ⟨rfl, rfl⟩
  | pop n =>
      obtain ⟨queue, hx⟩ := i.exists_call_pop n
      rw [hx]
      exact ⟨(Bool.or_false _).symm, rfl⟩
  | popValue width =>
      obtain ⟨queue, hx⟩ := i.exists_call_popValue width
      rw [hx]
      exact ⟨(Bool.or_false _).symm, rfl⟩
  | reset => exact ⟨(Bool.or_false _).symm, rfl⟩

/-- **The input closes with the last payload that is taken whole**, and only a reset opens it. -/
theorem closed_call_iff (i : Intake) (c : Call) :
    (i.call c).closed = true ↔
      (i.closed = true ∧ c ≠ .reset) ∨ ∃ p, c = .take p true ∧ i.count c = p.length := by
  -- a call that offers nothing leaves the input as it is
  have hkept : ∀ c : Call, (i.call c).closed = i.closed → c ≠ .reset →
      (∀ p, c ≠ .take p true) → ((i.call c).closed = true ↔
        (i.closed = true ∧ c ≠ .reset) ∨ ∃ p, c = .take p true ∧ i.count c = p.length) := by
    intro c hsame hc hnone
    rw [hsame]
    constructor
    · exact fun h => .inl ⟨h, hc⟩
    · rintro (⟨h, -⟩ | ⟨p, hp, -⟩)
      · exact h
      · exact absurd hp (hnone p)
  cases c with
  | tick => exact hkept .tick rfl (by rintro ⟨⟩) (by rintro p ⟨⟩)
  | take p last =>
      have hclosed : (i.call (.take p last)).closed =
          (i.closed || (last && i.count (.take p last) == p.length)) := by
        rw [call_take, count_take]
      rw [hclosed, Bool.or_eq_true, Bool.and_eq_true, beq_iff_eq]
      constructor
      · rintro (h | ⟨rfl, hall⟩)
        · exact .inl ⟨h, by rintro ⟨⟩⟩
        · exact .inr ⟨p, rfl, hall⟩
      · rintro (⟨h, -⟩ | ⟨p', hp', hall⟩)
        · exact .inl h
        · cases hp'
          exact .inr ⟨rfl, hall⟩
  | pop n =>
      obtain ⟨queue, hx⟩ := i.exists_call_pop n
      exact hkept (.pop n) (by rw [hx]) (by rintro ⟨⟩) (by rintro p ⟨⟩)
  | popValue width =>
      obtain ⟨queue, hx⟩ := i.exists_call_popValue width
      exact hkept (.popValue width) (by rw [hx]) (by rintro ⟨⟩) (by rintro p ⟨⟩)
  | reset =>
      constructor
      · intro h
        cases h
      · rintro (⟨-, h⟩ | ⟨p, ⟨⟩, -⟩)
        exact absurd rfl h

/-! ### Sequences of calls -/

/-- Calls on a new queue. -/
structure History where
  calls : Nat → Call

namespace History

/-- The queue before a call. -/
def intake (h : History) : Nat → Intake
  | 0 => {}
  | t + 1 => (h.intake t).call (h.calls t)

/-- How many bytes are taken in by a call. -/
def count (h : History) (t : Nat) : Nat := (h.intake t).count (h.calls t)

/-- The bytes that have been taken in before a call, since the last reset. -/
def received (h : History) : Nat → List Byte
  | 0 => []
  | t + 1 =>
    if h.calls t = .reset then [] else h.received t ++ (h.intake t).received (h.calls t)

/-- The bytes that have been handed out before a call, since the last reset. -/
def released (h : History) : Nat → List Byte
  | 0 => []
  | t + 1 =>
    if h.calls t = .reset then [] else h.released t ++ (h.intake t).released (h.calls t)

/-- How many cycles have been begun before a call. -/
def ticks (h : History) (t : Nat) : Nat := Nat.count (fun k => h.calls k = .tick) t

/-- No bytes have been taken in since the last tick but one, or none at all if there are not as
many ticks. -/
def Rested (h : History) (t : Nat) : Prop :=
  ∀ j < t, h.ticks t < h.ticks j + 2 → h.count j = 0

/-- A call offers the last payload and takes all of it. -/
def Closes (h : History) (t : Nat) : Prop :=
  ∃ p, h.calls t = .take p true ∧ h.count t = p.length

variable {h : History} {t : Nat}

/-- The queue never exceeds its capacity. -/
theorem length_queue_le (h : History) (t : Nat) : (h.intake t).queue.length ≤ capacity := by
  induction t with
  | zero => exact Nat.zero_le _
  | succ t ih => exact length_call_le ih (h.calls t)

/-- **What comes out and what is still there is what was taken in.** -/
theorem released_append_queue (h : History) (t : Nat) :
    h.released t ++ (h.intake t).queue = h.received t := by
  induction t with
  | zero => rfl
  | succ t ih =>
      rw [released, received, intake]
      by_cases hc : h.calls t = .reset
      · rw [if_pos hc, if_pos hc, hc]
        rfl
      · rw [if_neg hc, if_neg hc, List.append_assoc, Intake.released_append_queue _ hc,
          ← List.append_assoc, ih]

/-! ### The flags -/

/-- Bytes have been taken in, and `n` ticks have come since. -/
def TakenAgo (h : History) (t n : Nat) : Prop :=
  ∃ j < t, h.count j ≠ 0 ∧ h.ticks t = h.ticks j + n

theorem ticks_mono (h : History) {j : Nat} (hle : j ≤ t) : h.ticks j ≤ h.ticks t :=
  Nat.count_monotone _ hle

theorem ticks_tick (hc : h.calls t = .tick) : h.ticks (t + 1) = h.ticks t + 1 := by
  rw [ticks, Nat.count_succ, if_pos hc]
  rfl

theorem ticks_other (hc : h.calls t ≠ .tick) : h.ticks (t + 1) = h.ticks t := by
  rw [ticks, Nat.count_succ, if_neg hc]
  rfl

/-- Every tick makes what has been taken in a tick older. -/
theorem takenAgo_tick (hc : h.calls t = .tick) {n : Nat} :
    h.TakenAgo (t + 1) n ↔ ∃ m, n = m + 1 ∧ h.TakenAgo t m := by
  have hnone : h.count t = 0 := by
    rw [count, hc]
    rfl
  rw [TakenAgo, ticks_tick hc]
  constructor
  · rintro ⟨j, hlt, hj, hticks⟩
    rcases Nat.lt_or_eq_of_le (Nat.le_of_lt_succ hlt) with hlt | rfl
    · have hmono := h.ticks_mono (Nat.le_of_lt hlt)
      exact ⟨n - 1, by omega, j, hlt, hj, by omega⟩
    · exact absurd hnone hj
  · rintro ⟨m, rfl, j, hlt, hj, hticks⟩
    exact ⟨j, Nat.lt_succ_of_lt hlt, hj, by omega⟩

/-- Any other call can only take something in. -/
theorem takenAgo_other (hc : h.calls t ≠ .tick) {n : Nat} :
    h.TakenAgo (t + 1) n ↔ h.TakenAgo t n ∨ (h.count t ≠ 0 ∧ n = 0) := by
  rw [TakenAgo, ticks_other hc]
  constructor
  · rintro ⟨j, hlt, hj, hticks⟩
    rcases Nat.lt_or_eq_of_le (Nat.le_of_lt_succ hlt) with hlt | rfl
    · exact .inl ⟨j, hlt, hj, hticks⟩
    · exact .inr ⟨hj, by omega⟩
  · rintro (⟨j, hlt, hj, hticks⟩ | ⟨hnow, rfl⟩)
    · exact ⟨j, Nat.lt_succ_of_lt hlt, hj, hticks⟩
    · exact ⟨t, Nat.lt_succ_self t, hnow, rfl⟩

/-- **What the flags say**: bytes have been taken in since the last tick, or between the last two
ticks. -/
theorem flags_iff (h : History) (t : Nat) :
    ((h.intake t).pulsed = true ↔ h.TakenAgo t 0) ∧
      ((h.intake t).resting = true ↔ h.TakenAgo t 1) := by
  induction t with
  | zero =>
      have hnone : ∀ n, ¬ h.TakenAgo 0 n := by
        rintro n ⟨j, hlt, -⟩
        exact absurd hlt (Nat.not_lt_zero j)
      exact ⟨iff_of_false (by rintro ⟨⟩) (hnone 0), iff_of_false (by rintro ⟨⟩) (hnone 1)⟩
  | succ t ih =>
      obtain ⟨hpulsed, hresting⟩ := ih
      rw [intake]
      by_cases hc : h.calls t = .tick
      · rw [takenAgo_tick hc, takenAgo_tick hc, hc]
        refine ⟨iff_of_false (by rintro ⟨⟩) (by rintro ⟨m, ⟨⟩, -⟩), ?_⟩
        constructor
        · exact fun hflag => ⟨0, rfl, hpulsed.mp hflag⟩
        · rintro ⟨m, hm, hago⟩
          cases hm
          exact hpulsed.mpr hago
      · obtain ⟨hset, hsame⟩ := flags_call (h.intake t) hc
        rw [takenAgo_other hc, takenAgo_other hc, hset, hsame, Bool.or_eq_true, bne_iff_ne,
          hpulsed, hresting]
        refine ⟨?_, ?_⟩
        · exact or_congr Iff.rfl (and_iff_left rfl).symm
        · exact (or_iff_left (by rintro ⟨-, ⟨⟩⟩)).symm

/-- No flag is set exactly if the queue has rested. -/
theorem rested_iff (h : History) (t : Nat) :
    h.Rested t ↔ (h.intake t).pulsed = false ∧ (h.intake t).resting = false := by
  obtain ⟨hpulsed, hresting⟩ := h.flags_iff t
  rw [Bool.eq_false_iff, Bool.eq_false_iff, Ne, Ne, hpulsed, hresting]
  constructor
  · intro hrested
    refine ⟨?_, ?_⟩
    · rintro ⟨j, hlt, hj, hticks⟩
      exact hj (hrested j hlt (by omega))
    · rintro ⟨j, hlt, hj, hticks⟩
      exact hj (hrested j hlt (by omega))
  · rintro ⟨hnow, hbefore⟩ j hlt hfew
    refine Decidable.byContradiction fun hj => ?_
    have hmono := h.ticks_mono (Nat.le_of_lt hlt)
    obtain hticks | hticks : h.ticks t = h.ticks j + 0 ∨ h.ticks t = h.ticks j + 1 := by omega
    · exact hnow ⟨j, hlt, hj, hticks⟩
    · exact hbefore ⟨j, hlt, hj, hticks⟩

/-! ### The input -/

/-- **The input is closed** exactly if the last payload has been taken whole and no reset has come
since. -/
theorem closed_iff (h : History) (t : Nat) :
    (h.intake t).closed = true ↔
      ∃ j < t, h.Closes j ∧ ∀ k, j < k → k < t → h.calls k ≠ .reset := by
  induction t with
  | zero =>
      refine iff_of_false (by rintro ⟨⟩) ?_
      rintro ⟨j, hlt, -⟩
      exact absurd hlt (Nat.not_lt_zero j)
  | succ t ih =>
      rw [intake, closed_call_iff, ih]
      constructor
      · rintro (⟨⟨j, hlt, hj, hopen⟩, hc⟩ | hcloses)
        · refine ⟨j, Nat.lt_succ_of_lt hlt, hj, fun k hlo hhi => ?_⟩
          rcases Nat.lt_or_eq_of_le (Nat.le_of_lt_succ hhi) with hlt | rfl
          · exact hopen k hlo hlt
          · exact hc
        · exact ⟨t, Nat.lt_succ_self t, hcloses, fun k hlo hhi => by omega⟩
      · rintro ⟨j, hlt, hj, hopen⟩
        rcases Nat.lt_or_eq_of_le (Nat.le_of_lt_succ hlt) with hlt | rfl
        · refine .inl ⟨⟨j, hlt, hj, fun k hlo hhi => ?_⟩, hopen t hlt (Nat.lt_succ_self t)⟩
          exact hopen k hlo (Nat.lt_succ_of_lt hhi)
        · exact .inr hj

/-! ### Everything together -/

/-- A queue that is bounded and loses nothing. -/
structure Lossless (h : History) : Prop where
  /-- The queue never exceeds eight bytes. -/
  bounded : ∀ t, (h.intake t).queue.length ≤ 8
  /-- What has come out since the last reset, and behind that the queue, is what was taken in. -/
  ordered : ∀ t, h.released t ++ (h.intake t).queue = h.received t
  /-- As many bytes are handed out as are asked for. -/
  releases : ∀ t n out, h.calls t = .pop n → (h.intake t).pop? n = some out → out.1.length = n
  /-- They are refused if there are not as many, and then nothing changes. -/
  refuses : ∀ t n, h.calls t = .pop n → (h.intake t).pop? n = none →
    (h.intake t).queue.length < n ∧ h.intake (t + 1) = h.intake t
  /-- A value is refused if it is too wide or its bytes are not there, and then nothing changes. -/
  refusesValue : ∀ t width, h.calls t = .popValue width → (h.intake t).popValue? width = none →
    (4 < width ∨ (h.intake t).queue.length < width) ∧ h.intake (t + 1) = h.intake t
  /-- As much is taken in as there is, up to three bytes and to the room that there is, if the
  input is open and the queue has rested. -/
  takes : ∀ t p last, h.calls t = .take p last → (h.intake t).closed = false → h.Rested t →
    ((h.intake t).take p last).2 = min p.length (min 3 (8 - (h.intake t).queue.length))
  /-- Otherwise nothing is. -/
  waits : ∀ t p last, h.calls t = .take p last →
    ¬ ((h.intake t).closed = false ∧ h.Rested t) → ((h.intake t).take p last).2 = 0
  /-- The input is closed from the call that takes the last payload whole, until a reset. -/
  closes : ∀ t, (h.intake t).closed = true ↔
    ∃ j < t, h.Closes j ∧ ∀ k, j < k → k < t → h.calls k ≠ .reset

/-- **The queue is bounded and loses nothing**, whatever calls follow upon each other. -/
theorem queue_lossless (calls : Nat → Call) : Lossless ⟨calls⟩ := by
  refine ⟨length_queue_le _, released_append_queue _, fun t n out _ => length_of_pop?,
    ?_, ?_, ?_, ?_, closed_iff _⟩
  · intro t n hc hnone
    refine ⟨pop?_eq_none_iff.mp hnone, ?_⟩
    rw [intake, hc, call, hnone]
    rfl
  · intro t width hc hnone
    refine ⟨popValue?_eq_none_iff.mp hnone, ?_⟩
    rw [intake, hc, call, hnone]
    rfl
  · intro t p last hc hopen hrested
    rw [take_eq]
    exact if_pos ⟨hopen, (rested_iff _ t).mp hrested⟩
  · intro t p last hc hbusy
    rw [take_eq]
    exact if_neg fun hfree => hbusy ⟨hfree.1, (rested_iff _ t).mpr hfree.2⟩

end History

end BusScript.Intake
