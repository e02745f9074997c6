import BusScript.Proofs.Run.Clock
import Mathlib.Order.WellFounded

/-!
# Runs That End

`Run.complete` stops a system at the limit on cycles. Left alone, a system is clocked until its
engine reports the end of a run, and `EndsIn cycle n s` says that this comes in the `n`-th cycle
from `s`, and not before. The number of cycles is found through a **rank**, of which every cycle
that does not end the run uses up something.

## Main results

* `Run.exists_endsIn` — a system with a rank that every cycle makes less ends its run.
* `Run.EndsIn.complete_eq_error_iff` — a run exceeds its limit exactly if it takes more cycles.
-/

namespace BusScript.Run

variable {σ : Type} {cycle : σ → σ × Report} {s s' : σ} {n : Nat}

/-- The run of a system ends in the `n`-th cycle from now, and in no cycle before that. -/
inductive EndsIn (cycle : σ → σ × Report) : Nat → σ → Prop
  | now {s : σ} : (cycle s).2.status.isTerminal = true → EndsIn cycle 1 s
  | later {s : σ} {n : Nat} :
      (cycle s).2.status.isTerminal = false → EndsIn cycle n (cycle s).1 → EndsIn cycle (n + 1) s

/-- **A rank that every cycle makes less bounds a run.** `Inv a s` says that `s` is in the middle
of a run and has the rank `a`. -/
theorem exists_endsIn {α : Type} [LT α] [WellFoundedLT α] {Inv : α → σ → Prop}
    (hcycle : ∀ a s, Inv a s →
      (cycle s).2.status.isTerminal = true ∨ ∃ b, b < a ∧ Inv b (cycle s).1)
    {a : α} (h : Inv a s) : ∃ n, EndsIn cycle n s := by
  induction a using WellFoundedLT.induction generalizing s with
  | ind a ih =>
      cases hend : (cycle s).2.status.isTerminal with
      | true => exact ⟨1, .now hend⟩
      | false =>
          rcases hcycle a s h with hterminal | ⟨b, hlt, hinv⟩
          · rw [hend] at hterminal
            cases hterminal
          · obtain ⟨n, hn⟩ := ih b hlt hinv
            exact ⟨n + 1, .later hend hn⟩

/-- Two systems whose cycles report the same, and lead to two such systems again, end together. -/
theorem EndsIn.of_simulation {R : σ → σ → Prop}
    (hcycle : ∀ s s', R s s' → (cycle s).2 = (cycle s').2 ∧ R (cycle s).1 (cycle s').1)
    (h : EndsIn cycle n s) (hs : R s s') : EndsIn cycle n s' := by
  induction h generalizing s' with
  | now hend =>
      rw [(hcycle _ _ hs).1] at hend
      exact .now hend
  | later hopen _ ih =>
      obtain ⟨hreport, hnext⟩ := hcycle _ _ hs
      rw [hreport] at hopen
      exact .later hopen (ih hnext)

/-- Only the next cycle of a system matters. -/
theorem EndsIn.congr (h : EndsIn cycle n s) (hs : cycle s' = cycle s) : EndsIn cycle n s' := by
  cases h with
  | now hend =>
      rw [← hs] at hend
      exact .now hend
  | later hopen hnext =>
      rw [← hs] at hopen hnext
      exact .later hopen hnext

/-! ### The limit on cycles -/

/-- Clocking stops at the end of a run. -/
theorem clock_of_isTerminal (hend : (cycle s).2.status.isTerminal = true) (n : Nat)
    (tally : Tally) : (clock cycle (n + 1) tally s).2 ≠ none := by
  cases hstatus : (cycle s).2.status with
  | ended verdict =>
      rw [clock_of_ended hstatus]
      exact Option.some_ne_none _
  | idle | running =>
      rw [hstatus] at hend
      cases hend

/-- Clocking a system that ends its run in the `n`-th cycle fails with any smaller limit, and with
no other. -/
theorem EndsIn.clock_eq_none_iff (h : EndsIn cycle n s) (limit : Nat) (tally : Tally) :
    (clock cycle limit tally s).2 = none ↔ limit < n := by
  induction h generalizing limit tally with
  | now hend =>
      cases limit with
      | zero => exact ⟨fun _ => Nat.one_pos, fun _ => rfl⟩
      | succ limit =>
          constructor
          · intro hnone
            exact absurd hnone (clock_of_isTerminal hend limit tally)
          · intro hlt
            omega
  | later hopen _ ih =>
      cases limit with
      | zero => exact ⟨fun _ => Nat.succ_pos _, fun _ => rfl⟩
      | succ limit =>
          rw [clock_of_not_isTerminal hopen, ih]
          exact Nat.succ_lt_succ_iff.symm

/-- **A run exceeds its limit exactly if it takes more cycles**, where one cycle is always
allowed. -/
theorem EndsIn.complete_eq_error_iff {engine : σ → Engine} (h : EndsIn cycle n s)
    (error : LimitError) :
    (complete cycle engine s).1 = .error error ↔
      error = ⟨(engine s).options.maxCycles⟩ ∧ max (engine s).options.maxCycles 1 < n := by
  have hclock := h.clock_eq_none_iff (max (engine s).options.maxCycles 1) {}
  unfold complete
  dsimp only
  rw [drive_new]
  rcases hd : clock cycle (max (engine s).options.maxCycles 1) {} s with
    ⟨s', _ | ⟨verdict, tally⟩⟩
  · rw [hd] at hclock
    constructor
    · intro herror
      cases herror
      exact ⟨rfl, hclock.mp rfl⟩
    · rintro ⟨rfl, -⟩
      rfl
  · rw [hd] at hclock
    constructor
    · intro herror
      cases herror
    · rintro ⟨-, hlt⟩
      cases hclock.mpr hlt

end BusScript.Run
