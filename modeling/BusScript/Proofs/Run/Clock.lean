import BusScript.Run.Basic

/-!
# The Limit as a Number of Cycles

A run looks at its limit after each cycle (`Run.drive`). The same cycles are made if their number is
fixed beforehand: as many as the limit has left, and one at least. `Run.clock` makes a number of
cycles, and what is proved of runs is proved by induction on that number.

## Main results

* `Run.drive_eq_clock` — **the limit is a number of cycles**.
-/

namespace BusScript.Run

variable {σ : Type} {cycle : σ → σ × Report} {tally : Tally} {s : σ} {verdict : Verdict}

/-- Clocks a system for at most `n` cycles, and stops after the cycle in which a run ends. -/
def clock (cycle : σ → σ × Report) (n : Nat) (tally : Tally) (system : σ) :
    σ × Option (Verdict × Tally) :=
  match n with
  | 0 => (system, none)
  | n + 1 =>
    let (system, report) := cycle system
    let seen := tally.add report
    match report.status with
    | .ended verdict => (system, some (verdict, seen))
    | _ => clock cycle n seen system

/-! ### One cycle -/

/-- A cycle that ends a run is the last one, whatever the limit. -/
theorem drive_of_ended (h : (cycle s).2.status = .ended verdict) (limit : Nat) (tally : Tally) :
    drive cycle limit tally s = ((cycle s).1, some (verdict, tally.add (cycle s).2)) := by
  rw [drive]
  simp only [h]

/-- After any other cycle the limit is looked at. -/
theorem drive_of_not_isTerminal (h : (cycle s).2.status.isTerminal = false) (limit : Nat)
    (tally : Tally) :
    drive cycle limit tally s =
      if limit ≤ tally.cycles + 1 then ((cycle s).1, none)
      else drive cycle limit (tally.add (cycle s).2) (cycle s).1 := by
  rw [drive]
  cases hstatus : (cycle s).2.status with
  | ended verdict =>
      rw [hstatus] at h
      cases h
  | idle | running =>
      simp only [hstatus]
      rfl

theorem clock_of_ended (h : (cycle s).2.status = .ended verdict) (n : Nat) (tally : Tally) :
    clock cycle (n + 1) tally s = ((cycle s).1, some (verdict, tally.add (cycle s).2)) := by
  rw [clock]
  simp only [h]

/-- Clocking goes on after a cycle that does not end the run. -/
theorem clock_of_not_isTerminal (h : (cycle s).2.status.isTerminal = false) (n : Nat)
    (tally : Tally) :
    clock cycle (n + 1) tally s = clock cycle n (tally.add (cycle s).2) (cycle s).1 := by
  rw [clock]
  cases hstatus : (cycle s).2.status with
  | ended verdict =>
      rw [hstatus] at h
      cases h
  | idle | running => simp only [hstatus]

/-! ### All cycles -/

/-- **The limit is a number of cycles**: those that it has left, and one at least. Induction on the
cycles that it has left, of which every cycle takes one. -/
theorem drive_eq_clock (cycle : σ → σ × Report) (limit : Nat) (tally : Tally) (s : σ) :
    drive cycle limit tally s = clock cycle (max (limit - tally.cycles) 1) tally s := by
  induction hleft : limit - tally.cycles generalizing tally s with
  | zero =>
      cases hstatus : (cycle s).2.status with
      | ended verdict => rw [drive_of_ended hstatus, Nat.zero_max, clock_of_ended hstatus 0]
      | idle | running =>
          have hopen : (cycle s).2.status.isTerminal = false := by rw [hstatus]; rfl
          rw [drive_of_not_isTerminal hopen, if_pos (by omega), Nat.zero_max,
            clock_of_not_isTerminal hopen 0]
          rfl
  | succ n ih =>
      have hmax : max (n + 1) 1 = n + 1 := by omega
      rw [hmax]
      cases hstatus : (cycle s).2.status with
      | ended verdict => rw [drive_of_ended hstatus, clock_of_ended hstatus]
      | idle | running =>
          have hopen : (cycle s).2.status.isTerminal = false := by rw [hstatus]; rfl
          rw [drive_of_not_isTerminal hopen, clock_of_not_isTerminal hopen]
          split
          · -- the limit is used up
            obtain rfl : n = 0 := by omega
            rfl
          · have hmore : max n 1 = n := by omega
            rw [ih (tally.add (cycle s).2) (cycle s).1 (by rw [Tally.cycles_add]; omega), hmore]

/-- A new run makes as many cycles as its limit says, and one at least. -/
theorem drive_new (cycle : σ → σ × Report) (limit : Nat) (s : σ) :
    drive cycle limit {} s = clock cycle (max limit 1) {} s :=
  drive_eq_clock cycle limit {} s

end BusScript.Run
