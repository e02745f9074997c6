import BusScript.Proofs.Bus.Completion

/-!
# Waiting for a Memory

A memory target holds every transaction for the same number of wait states, so it is known from
the beginning when a transaction will retire. `Master.due` counts the cycles until then, and every
cycle counts it down by one.

## Main results

* `Master.due_advance` — a cycle against a memory counts the cycles that are due down by one.
-/

namespace BusScript.Bus

namespace Master

/-- The cycles until the outstanding transaction retires, against a memory: its setup cycle, the
wait states that are left, and the access cycle that ends it. -/
def due (bus : Master) (m : Memory) : Nat :=
  match bus.phase with
  | .idle => 0
  | .setup _ => m.waitStates + 2
  | .access _ => m.waitStates - m.waited + 1

variable {bus : Master} {t : Transaction}

/-- Something is due as long as a transaction is outstanding. -/
theorem due_pos (h : bus.outstanding? = some t) (m : Memory) : 0 < bus.due m := by
  obtain ⟨_ | x | x, issued⟩ := bus
  · cases h
  · exact Nat.succ_pos _
  · exact Nat.succ_pos _

/-- Nothing is due while nothing is outstanding. -/
theorem due_eq_zero (h : bus.outstanding? = none) (m : Memory) : bus.due m = 0 := by
  obtain ⟨_ | x | x, issued⟩ := bus
  · rfl
  · cases h
  · cases h

/-- **Every cycle counts down.** The cycle in which nothing more is due is the one that retires
the transaction. -/
theorem due_advance (bus : Master) (m : Memory) :
    (bus.advance (m.respond bus.request).1).1.due (m.respond bus.request).2 = bus.due m - 1 := by
  obtain ⟨_ | t | t, issued⟩ := bus
  · rfl
  · have hrequest : (Master.mk (.setup t) issued).request = t.setup := rfl
    rw [hrequest, Memory.respond_setup]
    rfl
  · have hrequest : (Master.mk (.access t) issued).request = t.enabled := rfl
    rw [hrequest, Memory.respond_enabled]
    by_cases h : m.waited < m.waitStates
    · simp only [h, if_true, advance, Transaction.retire?_wait, due]
      omega
    · simp only [h, if_false, advance, Memory.retire?_perform, due]
      omega

end Master

end BusScript.Bus
