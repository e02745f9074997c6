import BusScript.Proofs.Run.Limit

/-!
# Runs Against Their Limit

Without a limit, a system is clocked on and on, and its cycles report one thing after another
(`Run.reportAt`). A run looks at these reports up to the first that is terminal, or for as many
cycles as its limit allows, and leaves the system where it then stands. The first cycle is always
made, and the last one that the limit allows counts in full: a run that ends in it has ended.

## Main results

* `Run.complete_of_ends` — a run that ends within its limit reports just that.
* `Run.complete_of_open` — a run that does not stops after the last cycle that it is allowed.
* `limit_exact` — **the limit cuts the sequence of cycles off, and does nothing else**.
-/

namespace BusScript

namespace Run

/-! ### Cycles without a limit -/

section

variable {σ : Type}

/-- A system after a number of cycles. -/
def after (cycle : σ → σ × Report) (s : σ) : Nat → σ
  | 0 => s
  | n + 1 => (cycle (after cycle s n)).1

/-- What is reported in a cycle, counted from zero. -/
def reportAt (cycle : σ → σ × Report) (s : σ) (n : Nat) : Report := (cycle (after cycle s n)).2

/-- What has been seen of a system after a number of cycles. -/
def tallyAt (cycle : σ → σ × Report) (s : σ) : Nat → Tally
  | 0 => {}
  | n + 1 => (tallyAt cycle s n).add (reportAt cycle s n)

/-- None of the first `n` cycles reports the end of a run. -/
def Open (cycle : σ → σ × Report) (s : σ) (n : Nat) : Prop :=
  ∀ k < n, (reportAt cycle s k).status.isTerminal = false

/-- The cycle behind the first `n` reports the end of a run, and none of them does. -/
structure Ends (cycle : σ → σ × Report) (s : σ) (n : Nat) (verdict : Verdict) : Prop where
  status : (reportAt cycle s n).status = .ended verdict
  first : Open cycle s n

variable {cycle : σ → σ × Report} {s : σ} {n : Nat} {verdict : Verdict}

/-- Every cycle is counted. -/
theorem cycles_tallyAt (cycle : σ → σ × Report) (s : σ) (n : Nat) :
    (tallyAt cycle s n).cycles = n := by
  induction n with
  | zero => rfl
  | succ n ih => rw [tallyAt, Tally.add, ih]

/-- Every value that is read is kept. -/
theorem toList_results_tallyAt (cycle : σ → σ × Report) (s : σ) (n : Nat) :
    (tallyAt cycle s n).results.toList =
      (List.range n).flatMap fun k => (reportAt cycle s k).result.toList := by
  induction n with
  | zero => rfl
  | succ n ih =>
      rw [tallyAt, Tally.toList_results_add, ih, List.range_succ, List.flatMap_append,
        List.flatMap_singleton]

/-- Some first cycle ends a run, or none does. -/
theorem open_or_ends (cycle : σ → σ × Report) (s : σ) (n : Nat) :
    Open cycle s n ∨ ∃ k < n, ∃ verdict, Ends cycle s k verdict := by
  induction n with
  | zero => exact .inl fun k hk => absurd hk (Nat.not_lt_zero k)
  | succ n ih =>
      rcases ih with hopen | ⟨k, hk, hends⟩
      · cases hstatus : (reportAt cycle s n).status with
        | ended verdict => exact .inr ⟨n, Nat.lt_succ_self n, verdict, hstatus, hopen⟩
        | idle | running =>
            refine .inl fun k hk => ?_
            rcases Nat.lt_or_eq_of_le (Nat.le_of_lt_succ hk) with hlt | rfl
            · exact hopen k hlt
            · rw [hstatus]
              rfl
      · exact .inr ⟨k, Nat.lt_succ_of_lt hk, hends⟩

/-! ### Clocking -/

/-- Clocking goes through the cycles that do not end a run. Induction on their number, the last
one apart. -/
theorem clock_of_open (h : Open cycle s n) (limit : Nat) :
    clock cycle (n + limit) {} s =
      clock cycle limit (tallyAt cycle s n) (after cycle s n) := by
  induction n generalizing limit with
  | zero => rw [Nat.zero_add, tallyAt, after]
  | succ n ih =>
      have hopen : Open cycle s n := fun k hk => h k (Nat.lt_succ_of_lt hk)
      rw [Nat.succ_add_eq_add_succ, ih hopen, clock_of_not_isTerminal (h n (Nat.lt_succ_self n))]
      rfl

/-- Clocking stops with the cycle that ends a run. -/
theorem clock_of_ends (h : Ends cycle s n verdict) {limit : Nat} (hlimit : n < limit) :
    clock cycle limit {} s =
      (after cycle s (n + 1), some (verdict, tallyAt cycle s (n + 1))) := by
  obtain ⟨extra, rfl⟩ := Nat.exists_eq_add_of_lt hlimit
  rw [Nat.add_assoc, clock_of_open h.first, clock_of_ended h.status]
  rfl

variable {engine : σ → Engine}

/-- **A run that ends within its limit reports just that.** -/
theorem complete_of_ends (h : Ends cycle s n verdict)
    (hlimit : n + 1 ≤ max (engine s).options.maxCycles 1) :
    complete cycle engine s =
      (.ok (summarize (engine (after cycle s (n + 1))) verdict (tallyAt cycle s (n + 1))),
        after cycle s (n + 1)) := by
  rw [complete, drive_new, clock_of_ends h hlimit]

/-- **A run that does not end within its limit** stops after the last cycle that it is allowed. -/
theorem complete_of_open (h : Open cycle s (max (engine s).options.maxCycles 1)) :
    complete cycle engine s =
      (.error ⟨(engine s).options.maxCycles⟩,
        after cycle s (max (engine s).options.maxCycles 1)) := by
  have hclock := clock_of_open h 0
  rw [Nat.add_zero, clock] at hclock
  rw [complete, drive_new, hclock]

/-! ### Raising the limit -/

/-- Systems whose cycles report the same, and lead to two such systems again, report the same in
all cycles. -/
theorem after_of_simulation {R : σ → σ → Prop} {s' : σ}
    (hcycle : ∀ s s', R s s' → (cycle s).2 = (cycle s').2 ∧ R (cycle s).1 (cycle s').1)
    (h : R s s') (n : Nat) :
    R (after cycle s n) (after cycle s' n) ∧ reportAt cycle s n = reportAt cycle s' n := by
  have hafter : R (after cycle s n) (after cycle s' n) := by
    induction n with
    | zero => exact h
    | succ n ih => exact (hcycle _ _ ih).2
  exact ⟨hafter, (hcycle _ _ hafter).1⟩

/-- Of twins, everything in a summary is the same. -/
theorem summarize_twin {e e' : Engine} (h : e.Twin e') (verdict : Verdict) (tally : Tally) :
    summarize e verdict tally = summarize e' verdict tally := by
  obtain ⟨options, -, rfl⟩ := h
  rfl

/-- **A run that has ended within its limit ends in the same way with a higher one.** `R` relates
systems that differ in the limits of their engines at most. -/
theorem complete_of_simulation {τ : Type} {target : σ → τ} {R : σ → σ → Prop} {s' : σ}
    (hcycle : ∀ s s', R s s' → (cycle s).2 = (cycle s').2 ∧ R (cycle s).1 (cycle s').1)
    (htwin : ∀ s s', R s s' → (engine s).Twin (engine s') ∧ target s = target s') (h : R s s')
    (hle : (engine s).options.maxCycles ≤ (engine s').options.maxCycles) {summary : Summary}
    (hok : (complete cycle engine s).1 = .ok summary) :
    (complete cycle engine s').1 = (complete cycle engine s).1 ∧
      target (complete cycle engine s').2 = target (complete cycle engine s).2 := by
  have hsim := after_of_simulation hcycle h
  have htally : ∀ n, tallyAt cycle s' n = tallyAt cycle s n := by
    intro n
    induction n with
    | zero => rfl
    | succ n ih => rw [tallyAt, tallyAt, ih, (hsim n).2]
  rcases open_or_ends cycle s (max (engine s).options.maxCycles 1) with
    hopen | ⟨n, hn, verdict, hends⟩
  · rw [complete_of_open hopen] at hok
    cases hok
  · have hends' : Ends cycle s' n verdict := by
      refine ⟨?_, fun k hk => ?_⟩
      · rw [← (hsim n).2]
        exact hends.status
      · rw [← (hsim k).2]
        exact hends.first k hk
    obtain ⟨hengine, htarget⟩ := htwin _ _ (hsim (n + 1)).1
    rw [complete_of_ends hends hn, complete_of_ends hends' (by omega)]
    refine ⟨?_, htarget.symm⟩
    rw [summarize_twin hengine, htally]

/-- What a limit makes of the cycles of a system: `result` is what a run with that limit reports,
and the target that it leaves. -/
structure Exact {τ : Type} (cycle : σ → σ × Report) (target : σ → τ) (s : σ) (limit : Nat)
    (result : Except LimitError Summary × τ) : Prop where
  /-- If the first cycle to end a run is within the limit, the run is reported with the verdict of
  that cycle and the values of all cycles up to it, and the target is left as it is then. -/
  ends : ∀ n verdict, Ends cycle s n verdict → n + 1 ≤ max limit 1 →
    ∃ summary, result = (.ok summary, target (after cycle s (n + 1))) ∧
      summary.verdict = verdict ∧ summary.cycles = n + 1 ∧
      summary.results.toList =
        (List.range (n + 1)).flatMap fun k => (reportAt cycle s k).result.toList
  /-- If there is no such cycle within the limit, the limit is reported, and the target is left as
  it is after the last cycle that is allowed. -/
  exceeds : Open cycle s (max limit 1) →
    result = (.error ⟨limit⟩, target (after cycle s (max limit 1)))
  /-- Up to then, 32 bits are enough to count the cycles. -/
  counts : ∀ n ≤ max limit 1, (tallyAt cycle s n).cycles = n ∧ n < UInt32.size

/-- A run is as exact as its limit is admissible. -/
theorem exact_complete {τ : Type} {target : σ → τ} {limit : Nat}
    (hlimit : (engine s).options.maxCycles = limit) (hbound : limit ≤ Options.cycleBound) :
    Exact cycle target s limit
      ((complete cycle engine s).1, target (complete cycle engine s).2) := by
  subst hlimit
  refine ⟨?_, ?_, fun n hn => ⟨cycles_tallyAt cycle s n, ?_⟩⟩
  · intro n verdict hends hn
    rw [complete_of_ends hends hn]
    exact ⟨_, rfl, rfl, cycles_tallyAt cycle s (n + 1), toList_results_tallyAt cycle s (n + 1)⟩
  · intro hopen
    rw [complete_of_open hopen]
  · have hsmall : Options.cycleBound < UInt32.size := by decide
    have hone : 1 < UInt32.size := by decide
    omega

end

end Run

open Run

/-- Options are made with the values that are asked for, and a limit within bounds. -/
theorem Options.make?_eq_ok {pollCount pollDelay stride : Value} {limit : Nat}
    {options : Options} (h : make? pollCount pollDelay stride limit = .ok options) :
    options.pollCount = pollCount ∧ options.pollDelay = pollDelay ∧ options.stride = stride ∧
      options.maxCycles = limit ∧ limit ≤ cycleBound := by
  rw [make?] at h
  split at h
  · next hbound =>
    split at h
    · cases h
      exact ⟨rfl, rfl, rfl, rfl, hbound⟩
    · cases h
  · cases h

/-- Options that are made with different limits are otherwise alike. -/
theorem Options.alike_of_make? {pollCount pollDelay stride : Value} {limit limit' : Nat}
    {options options' : Options} (h : make? pollCount pollDelay stride limit = .ok options)
    (h' : make? pollCount pollDelay stride limit' = .ok options') : options.Alike options' := by
  obtain ⟨hcount, hdelay, hstride, -⟩ := make?_eq_ok h
  obtain ⟨hcount', hdelay', hstride', -⟩ := make?_eq_ok h'
  exact ⟨hcount.trans hcount'.symm, hdelay.trans hdelay'.symm, hstride.trans hstride'.symm⟩

section

variable {τ : Type} [Bus.Target τ] {options options' : Options} {summary : Summary}

/-- A run of words that has ended is the same with a higher limit. -/
theorem runWords_raise (halike : options.Alike options')
    (hle : options.maxCycles ≤ options'.maxCycles) {target : τ} {words : List Command.Word}
    {idleGap : Nat} (hok : (runWords options target words idleGap).1 = .ok summary) :
    runWords options' target words idleGap = runWords options target words idleGap := by
  have hnew : (StreamSystem.new options target words idleGap).Twin
      (.new options' target words idleGap) :=
    ⟨_, ⟨_, Engine.twin_new halike, rfl⟩, rfl⟩
  have htwin : ∀ s s' : StreamSystem τ, s.Twin s' →
      s.engine.Twin s'.engine ∧ s.target = s'.target := by
    rintro s s' ⟨feeder, hfeeder, rfl⟩
    exact ⟨hfeeder.engine, rfl⟩
  obtain ⟨hreport, htarget⟩ :=
    complete_of_simulation (fun _ _ => StreamSystem.Twin.cycle) htwin hnew hle hok
  exact Prod.ext hreport htarget

/-- A run of a stored script that has ended is the same with a higher limit. -/
theorem runStored_raise (halike : options.Alike options')
    (hle : options.maxCycles ≤ options'.maxCycles) {store : Store} {target : τ}
    {address : BitVec 16} (hok : (runStored options store target address).1 = .ok summary) :
    runStored options' store target address = runStored options store target address := by
  have hnew : (StoredSystem.new options store target address).Twin
      (.new options' store target address) :=
    ⟨_, ⟨_, Engine.twin_new halike, rfl⟩, rfl⟩
  have htwin : ∀ s s' : StoredSystem τ, s.Twin s' →
      s.engine.Twin s'.engine ∧ s.target = s'.target := by
    rintro s s' ⟨feeder, hfeeder, rfl⟩
    exact ⟨hfeeder.engine, rfl⟩
  obtain ⟨hreport, htarget⟩ :=
    complete_of_simulation (fun _ _ => StoredSystem.Twin.cycle) htwin hnew hle hok
  exact Prod.ext hreport htarget

end

/-- **The limit cuts the sequence of cycles off, and does nothing else.** With all options that can
be made and against any target, a run of any words, and one of any stored script, is exact; and a
run that has ended within its limit is the same, to the target that it leaves, with every higher
limit. -/
theorem limit_exact {τ : Type} [Bus.Target τ] {pollCount pollDelay stride : Value} {limit : Nat}
    {options : Options} (h : Options.make? pollCount pollDelay stride limit = .ok options)
    (target : τ) :
    (∀ words idleGap, Exact StreamSystem.cycle StreamSystem.target
      (.new options target words idleGap) limit (runWords options target words idleGap)) ∧
    (∀ store address, Exact StoredSystem.cycle StoredSystem.target
      (.new options store target address) limit (runStored options store target address)) ∧
    ∀ limit' options', Options.make? pollCount pollDelay stride limit' = .ok options' →
      limit ≤ limit' →
      (∀ words idleGap summary, (runWords options target words idleGap).1 = .ok summary →
        runWords options' target words idleGap = runWords options target words idleGap) ∧
      (∀ store address summary, (runStored options store target address).1 = .ok summary →
        runStored options' store target address = runStored options store target address) := by
  obtain ⟨-, -, -, hlimit, hbound⟩ := Options.make?_eq_ok h
  refine ⟨fun words idleGap => exact_complete hlimit hbound,
    fun store address => exact_complete hlimit hbound, ?_⟩
  intro limit' options' h' hle
  have halike := Options.alike_of_make? h h'
  have hraised : options.maxCycles ≤ options'.maxCycles := by
    rw [hlimit, (Options.make?_eq_ok h').2.2.2.1]
    exact hle
  exact ⟨fun words idleGap summary => runWords_raise halike hraised,
    fun store address summary => runStored_raise halike hraised⟩

/-- Words that start a script without bytes. -/
def Command.bare : List Word := [⟨0x0010000000000000⟩, ⟨0x0020000000000000⟩]

/-- The script without bytes takes three cycles, so a limit of three is enough for it, and one of
two is not. -/
theorem limit_exact_bare :
    ∃ options options', Options.make? 1024 0 1 3 = .ok options ∧
      Options.make? 1024 0 1 2 = .ok options' ∧
      Ends StreamSystem.cycle (.new options ({} : Bus.Memory) Command.bare 0) 2 .completed ∧
      (∃ summary, (runWords options ({} : Bus.Memory) Command.bare 0).1 = .ok summary ∧
        summary.cycles = 3) ∧
      Open StreamSystem.cycle (.new options' ({} : Bus.Memory) Command.bare 0) 2 ∧
      (runWords options' ({} : Bus.Memory) Command.bare 0).1 = .error ⟨2⟩ := by
  have htwo : ∀ {p : Nat → Prop}, p 0 → p 1 → ∀ k < 2, p k := by
    intro p h₀ h₁ k hk
    obtain rfl | rfl : k = 0 ∨ k = 1 := by omega
    · exact h₀
    · exact h₁
  refine ⟨_, _, rfl, rfl, ⟨rfl, htwo rfl rfl⟩, ?_, htwo rfl rfl, ?_⟩
  · have hexact := (limit_exact (show Options.make? 1024 0 1 3 = .ok _ from rfl)
      ({} : Bus.Memory)).1 Command.bare 0
    obtain ⟨summary, hrun, -, hcycles, -⟩ :=
      hexact.ends 2 .completed ⟨rfl, htwo rfl rfl⟩ (by decide)
    exact ⟨summary, congrArg Prod.fst hrun, hcycles⟩
  · have hexact := (limit_exact (show Options.make? 1024 0 1 2 = .ok _ from rfl)
      ({} : Bus.Memory)).1 Command.bare 0
    exact congrArg Prod.fst (hexact.exceeds (htwo rfl rfl))

end BusScript
