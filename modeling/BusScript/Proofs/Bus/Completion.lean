import BusScript.Bus.Atomic

/-!
# Completing a Transaction

One cycle of a bus master against a memory target, seen from the atomic view of the memory:
either nothing retires and the view stays as it was, or the outstanding transaction retires
with the outcome of one atomic step, and the view has made that step. Setup cycles and wait
states are of the first kind, whatever their number.

## Main results

* `Master.advance_cases` — the two kinds of cycle, against any target.
* `Master.advance_memory` — the two kinds of cycle, against a memory.
-/

namespace BusScript.Bus

namespace Transaction

/-- A target that waits retires nothing. -/
@[simp] theorem retire?_wait (t : Transaction) : t.retire? .wait = none := rfl

/-- What the answer that ends a transaction says of it. -/
def outcome (t : Transaction) (r : Response) : Outcome :=
  if r.error then .fault
  else match t.access with
    | .read => .read r.data
    | .write _ => .written

/-- A transaction ends in the cycle in which the target is ready. -/
theorem retire?_eq (t : Transaction) (r : Response) :
    t.retire? r = if r.ready then some (t.outcome r) else none := by
  obtain ⟨address, access⟩ := t
  rw [retire?, outcome]
  cases r.ready <;> cases r.error <;> cases access <;> rfl

/-- A transaction that retires has failed, or has had the outcome of its direction. -/
theorem retire?_cases {t : Transaction} {r : Response} {outcome : Outcome}
    (h : t.retire? r = some outcome) :
    outcome = .fault ∨ (t.isWrite = false ∧ ∃ v, outcome = .read v) ∨
      (t.isWrite = true ∧ outcome = .written) := by
  obtain ⟨address, access⟩ := t
  rw [retire?] at h
  split at h
  · cases h
  · split at h
    · cases h
      exact .inl rfl
    · cases access with
      | read =>
          cases h
          exact .inr (.inl ⟨rfl, _, rfl⟩)
      | write v =>
          cases h
          exact .inr (.inr ⟨rfl, rfl⟩)

end Transaction

namespace Memory

/-- A setup cycle only restarts the count of wait states. -/
@[simp] theorem respond_setup (m : Memory) (t : Transaction) :
    m.respond t.setup = (.wait, { m with waited := 0 }) := by
  obtain ⟨address, access⟩ := t
  cases access <;> rfl

/-- An access cycle waits, or carries the transaction out. -/
theorem respond_enabled (m : Memory) (t : Transaction) :
    m.respond t.enabled =
      if m.waited < m.waitStates then (.wait, { m with waited := m.waited + 1 })
      else
        (({ m with waited := 0 }.perform t).1.response, ({ m with waited := 0 }.perform t).2) := by
  have henable : t.enabled.enable = true := rfl
  simp [respond, henable]

/-- The wires that report an outcome are read as that outcome. -/
theorem retire?_perform (m : Memory) (t : Transaction) :
    t.retire? (m.perform t).1.response = some (m.perform t).1 := by
  obtain ⟨address, access⟩ := t
  rcases h : m.cell address with ⟨value, _ | ⟨v, rest⟩, _ | _⟩ <;> cases access <;>
    simp [perform, h, Transaction.retire?, Outcome.response]

/-- The count of wait states is not part of the view. -/
@[simp] theorem atomic_waited (m : Memory) (n : Nat) :
    ({ m with waited := n } : Memory).atomic = m.atomic := rfl

end Memory

namespace Master

/-- A master is idle exactly when nothing is outstanding. -/
theorem isIdle_eq_true_iff {bus : Master} : bus.isIdle = true ↔ bus.outstanding? = none := by
  obtain ⟨phase, issued⟩ := bus
  cases phase <;> simp [isIdle, outstanding?]

/-- One cycle against any target: nothing retires and what is outstanding stays so, or the
outstanding transaction retires as the answer says and the master is idle. -/
theorem advance_cases (bus : Master) (r : Response) :
    (∃ bus', bus.advance r = (bus', none) ∧ bus'.outstanding? = bus.outstanding? ∧
      bus'.issued = bus.issued) ∨
    (∃ t outcome, bus.outstanding? = some t ∧ t.retire? r = some outcome ∧
      bus.advance r = ({ bus with phase := .idle }, some (t, outcome))) := by
  obtain ⟨phase, issued⟩ := bus
  cases phase with
  | idle => exact .inl ⟨_, rfl, rfl, rfl⟩
  | setup t => exact .inl ⟨_, rfl, rfl, rfl⟩
  | access t =>
      cases h : t.retire? r with
      | none => exact .inl ⟨⟨.access t, issued⟩, by simp [advance, h], rfl, rfl⟩
      | some outcome => exact .inr ⟨t, outcome, rfl, h, by simp [advance, h]⟩

/-- **One cycle against a memory**: nothing retires and the view of the memory is unchanged, or
the outstanding transaction retires as one atomic step. -/
theorem advance_memory (bus : Master) (m : Memory) :
    (∃ bus', bus.advance (m.respond bus.request).1 = (bus', none) ∧
      bus'.outstanding? = bus.outstanding? ∧ bus'.issued = bus.issued ∧
      (m.respond bus.request).2.atomic = m.atomic) ∨
    (∃ t, bus.outstanding? = some t ∧
      bus.advance (m.respond bus.request).1 =
        ({ bus with phase := .idle }, some (t, (m.atomic.perform t).1)) ∧
      (m.respond bus.request).2.atomic = (m.atomic.perform t).2) := by
  obtain ⟨phase, issued⟩ := bus
  cases phase with
  | idle => exact .inl ⟨_, rfl, rfl, rfl, rfl⟩
  | setup t =>
      refine .inl ⟨⟨.access t, issued⟩, ?_, rfl, rfl, ?_⟩
      · simp [advance]
      · simp [request]
  | access t =>
      have hrequest : (Master.mk (.access t) issued).request = t.enabled := rfl
      rw [hrequest, Memory.respond_enabled]
      by_cases h : m.waited < m.waitStates
      · refine .inl ⟨⟨.access t, issued⟩, ?_, rfl, rfl, ?_⟩
        · simp [advance, h]
        · simp [h]
      · refine .inr ⟨t, rfl, ?_, ?_⟩
        · simp only [h, if_false, advance, Memory.retire?_perform]
          rw [Memory.perform_fst_eq_atomic, Memory.atomic_waited]
        · simp only [h, if_false, Memory.atomic_perform, Memory.atomic_waited]

end Master

end BusScript.Bus
