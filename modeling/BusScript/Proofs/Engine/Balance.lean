import BusScript.Proofs.Engine.Compliance

/-!
# The Books of an Engine

An engine counts the transactions that it begins and reports the values that it reads; a memory
keeps its own log of what it has carried out. `Engine.Balanced` compares the two in the middle of a
run, where `entries` is what the memory has logged since the run began: all that was begun is in
the log or outstanding, and a transaction that has failed is the last one and has ended the run.
What words are presented plays no part in it, so it holds of runs that make sense and of those
that do not.

## Main results

* `Engine.Balanced.step` — a cycle against a memory keeps the books.
-/

namespace BusScript

/-- An entry of a read that found a value. -/
def Bus.LogEntry.isFinding (entry : LogEntry) : Bool :=
  !entry.faulted && !entry.transaction.isWrite

/-- The entry of a transaction with an outcome. -/
def Bus.LogEntry.ofOutcome (t : Transaction) (outcome : Outcome) : LogEntry :=
  ⟨t, decide (outcome = .fault)⟩

namespace Engine

/-- The books of an engine in its first run, after which a memory has logged `entries` and the
engine has reported `results`. -/
structure Balanced (e : Engine) (entries : List Bus.LogEntry) (results : List ReadResult) :
    Prop where
  sound : e.Sound
  /-- What was begun is in the log or outstanding. -/
  issued : e.bus.issued = entries.length + e.bus.outstanding?.toList.length
  /-- Nothing comes after a failed transaction. -/
  clean : ∀ entry ∈ entries.dropLast, entry.faulted = false
  /-- A failed transaction has ended the run. -/
  errored : ∀ entry, entries.getLast? = some entry → entry.faulted = true →
    e.stage = .ended .errored
  /-- An error that names a transaction names the last one, which has failed. -/
  fault : ∀ address write, e.lastError = some (.busFault address write) →
    ∃ entry, entries.getLast? = some entry ∧ entry.faulted = true ∧
      entry.transaction.address = address ∧ entry.transaction.isWrite = write
  /-- Reported values fit their width. -/
  fits : ∀ r ∈ results, r.value &&& r.width.mask = r.value
  /-- Every reported value was found by a read. -/
  found : results.length ≤ entries.countP Bus.LogEntry.isFinding

variable {e e' : Engine} {entries : List Bus.LogEntry} {results : List ReadResult}

/-- A new engine has nothing in its books. -/
theorem balanced_new (options : Options) : (new options).Balanced [] [] := by
  refine ⟨sound_new options, rfl, by simp, by simp, ?_, by simp, Nat.le_refl _⟩
  rintro address write ⟨⟩

/-! ### While the run goes on -/

section Running

variable (h : e.Balanced entries results) (hrun : ∀ verdict, e.stage ≠ .ended verdict)

include h hrun

/-- As long as the run has not ended, no transaction has failed. -/
theorem Balanced.all_clean : ∀ entry ∈ entries, entry.faulted = false := by
  have hlast : ∀ entry, entries.getLast? = some entry → entry.faulted = false := by
    intro entry hentry
    cases hfaulted : entry.faulted with
    | false => rfl
    | true => exact absurd (h.errored entry hentry hfaulted) (hrun .errored)
  intro entry hmem
  cases hentries : entries.getLast? with
  | none =>
      rw [List.getLast?_eq_none_iff.mp hentries] at hmem
      cases hmem
  | some last =>
      obtain ⟨front, hfront⟩ := List.getLast?_eq_some_iff.mp hentries
      have hclean := h.clean
      rw [hfront, List.dropLast_concat] at hclean
      rw [hfront, List.mem_append, List.mem_singleton] at hmem
      rcases hmem with hin | rfl
      · exact hclean entry hin
      · exact hlast entry hentries

/-- And no error names a transaction. -/
theorem Balanced.no_fault (address : Address) (write : Bool) :
    e.lastError ≠ some (.busFault address write) := by
  intro herror
  obtain ⟨entry, hlast, hfaulted, -⟩ := h.fault address write herror
  exact hrun .errored (h.errored entry hlast hfaulted)

/-- What is done without a retirement keeps the books, as long as it makes no error of a fault. -/
theorem Balanced.keep (hsound : e'.Sound)
    (hissued : e'.bus.issued = entries.length + e'.bus.outstanding?.toList.length)
    (herror : ∀ address write, e'.lastError ≠ some (.busFault address write)) :
    e'.Balanced entries results := by
  refine ⟨hsound, hissued, h.clean, ?_, ?_, h.fits, h.found⟩
  · intro entry hlast hfaulted
    have hclean := h.all_clean hrun entry (List.mem_of_getLast? hlast)
    rw [hfaulted] at hclean
    cases hclean
  · intro address write hfault
    exact absurd hfault (herror address write)

/-- A transaction that retires is entered. It may end the run with its fault, and may bring a value
if it has read one. -/
theorem Balanced.enter {t : Bus.Transaction} {outcome : Bus.Outcome} {result : Option ReadResult}
    (ht : e.bus.outstanding? = some t) (hsound : e'.Sound)
    (hbus : e'.bus = e.released.bus) (hfault : outcome = .fault → e'.stage = .ended .errored)
    (herror : ∀ address write, e'.lastError = some (.busFault address write) →
      outcome = .fault ∧ t.address = address ∧ t.isWrite = write)
    (hresult : ∀ r, result = some r →
      outcome ≠ .fault ∧ t.isWrite = false ∧ r.value &&& r.width.mask = r.value) :
    e'.Balanced (entries ++ [.ofOutcome t outcome]) (results ++ result.toList) := by
  have hfaulted : (Bus.LogEntry.ofOutcome t outcome).faulted = true ↔ outcome = .fault :=
    decide_eq_true_iff
  refine ⟨hsound, ?_, ?_, ?_, ?_, ?_, ?_⟩
  · rw [hbus, List.length_append]
    have hissued := h.issued
    rw [ht] at hissued
    exact hissued
  · rw [List.dropLast_concat]
    exact h.all_clean hrun
  · rw [List.getLast?_concat]
    rintro entry ⟨⟩ hentry
    exact hfault (hfaulted.mp hentry)
  · intro address write hnamed
    obtain ⟨hoccurred, haddress, hwrite⟩ := herror address write hnamed
    exact ⟨_, List.getLast?_concat, hfaulted.mpr hoccurred, haddress, hwrite⟩
  · intro r hmem
    rcases List.mem_append.mp hmem with hold | hnew
    · exact h.fits r hold
    · exact (hresult r (Option.mem_toList.mp hnew)).2.2
  · have hfound := h.found
    rw [List.length_append, List.countP_append]
    cases result with
    | none => exact Nat.le_add_right_of_le hfound
    | some r =>
        obtain ⟨hsuccess, hread, -⟩ := hresult r rfl
        have hfinding : (Bus.LogEntry.ofOutcome t outcome).isFinding = true := by
          simp [Bus.LogEntry.isFinding, Bus.LogEntry.ofOutcome, hsuccess, hread]
        rw [List.countP_singleton, hfinding]
        exact Nat.add_le_add_right hfound 1

end Running

/-! ### The second part of a cycle: settling the bus -/

/-- The effect of a retired transaction. -/
theorem Balanced.retire {t : Bus.Transaction} {outcome : Bus.Outcome} {r : Bus.Response}
    (h : e.Balanced entries results) (hrun : ∀ verdict, e.stage ≠ .ended verdict)
    (ht : e.bus.outstanding? = some t) (hr : t.retire? r = some outcome) :
    (e.released.retire t outcome).1.Balanced (entries ++ [.ofOutcome t outcome])
      (results ++ (e.released.retire t outcome).2.toList) := by
  have hsound := h.sound.retire ht hr
  have hbus := bus_retire e.released t outcome
  have hnone : ∀ address write, e.lastError = some (.busFault address write) →
      outcome = .fault ∧ t.address = address ∧ t.isWrite = write := by
    intro address write hfault
    exact absurd hfault (h.no_fault hrun address write)
  rcases h.sound.retirement_cases ht hr with hs | ⟨a, hs, rfl⟩ | ⟨x, v, hs, -, hread, rfl⟩ |
    ⟨x, hs, -, rfl⟩ | ⟨p, v, hs, -, rfl⟩
  all_goals change e.released.stage = _ at hs
  · rw [retire_draining hs] at hsound hbus ⊢
    exact h.enter hrun ht hsound hbus (fun _ => rfl) hnone (by simp)
  · -- the fault is what the error says
    rw [retire_fault hs] at hsound hbus ⊢
    refine h.enter hrun ht hsound hbus (fun _ => rfl) ?_ (by simp)
    rintro address write ⟨⟩
    exact ⟨rfl, rfl, rfl⟩
  · rw [retire_read hs] at hsound hbus ⊢
    refine h.enter hrun ht hsound hbus (by simp) hnone ?_
    rintro result ⟨⟩
    refine ⟨by simp, hread, ?_⟩
    dsimp only
    rw [BitVec.and_assoc, BitVec.and_self]
  · rw [retire_written hs] at hsound hbus ⊢
    exact h.enter hrun ht hsound hbus (by simp) hnone (by simp)
  · rw [retire_poll hs] at hsound hbus ⊢
    by_cases hbit : p.isSatisfied v = true
    · rw [if_pos hbit] at hsound hbus ⊢
      exact h.enter hrun ht hsound hbus (by simp) hnone (by simp)
    · rw [if_neg hbit] at hsound hbus ⊢
      by_cases hspent : p.budget ≤ p.attempts
      · rw [if_pos hspent] at hsound hbus ⊢
        refine h.enter hrun ht hsound hbus (by simp) ?_ (by simp)
        rintro address write ⟨⟩
      · rw [if_neg hspent] at hsound hbus ⊢
        exact h.enter hrun ht hsound hbus (by simp) hnone (by simp)

/-- What a memory logs in a cycle: the transaction that retires, if one does. -/
theorem settle_log (e : Engine) (memory : Bus.Memory) :
    (∃ bus, e.settle (memory.respond e.request).1 = ({ e with bus }, none) ∧
      bus.outstanding? = e.bus.outstanding? ∧ bus.issued = e.bus.issued ∧
      (memory.respond e.request).2.log.toList = memory.log.toList) ∨
    (∃ t outcome, e.bus.outstanding? = some t ∧
      t.retire? (memory.respond e.request).1 = some outcome ∧
      e.settle (memory.respond e.request).1 = e.released.retire t outcome ∧
      (memory.respond e.request).2.log.toList =
        memory.log.toList ++ [.ofOutcome t outcome]) := by
  rw [settle, request]
  rcases e.bus.advance_memory memory with ⟨bus, hadv, hout, hissued, hview⟩ | ⟨t, ht, hadv, hview⟩
  · exact .inl ⟨bus, by rw [hadv], hout, hissued, congrArg Bus.Atomic.log hview⟩
  · rcases e.bus.advance_cases (memory.respond e.bus.request).1 with
      ⟨bus, hnone, -⟩ | ⟨t', outcome, -, hr, hsome⟩
    · rw [hadv] at hnone
      cases hnone
    · rw [hadv] at hsome
      cases hsome
      refine .inr ⟨t, _, ht, hr, by rw [hadv]; rfl, ?_⟩
      exact (congrArg Bus.Atomic.log hview).trans (Bus.Atomic.log_perform _ t)

/-- The second part of a cycle enters what retires. -/
theorem Balanced.settle (h : e.Balanced entries results)
    (hrun : ∀ verdict, e.stage ≠ .ended verdict) (memory : Bus.Memory) :
    ∃ added, (memory.respond e.request).2.log.toList = memory.log.toList ++ added ∧
      (e.settle (memory.respond e.request).1).1.Balanced (entries ++ added)
        (results ++ (e.settle (memory.respond e.request).1).2.toList) := by
  rcases e.settle_log memory with ⟨bus, hx, hout, hissued, hlog⟩ | ⟨t, outcome, ht, hr, hx, hlog⟩
  · refine ⟨[], by rw [hlog, List.append_nil], ?_⟩
    have hsound := h.sound.settle (memory.respond e.request).1
    rw [hx] at hsound ⊢
    rw [List.append_nil, Option.toList_none, List.append_nil]
    refine h.keep hrun hsound ?_ (h.no_fault hrun)
    rw [hissued, hout]
    exact h.issued
  · refine ⟨[.ofOutcome t outcome], hlog, ?_⟩
    rw [hx]
    exact h.retire hrun ht hr

/-! ### The other parts of a cycle -/

/-- No command makes a fault. -/
theorem fault_of_accept {word : Command.Word} {address : Address} {write : Bool}
    (h : (e.accept word).1.lastError = some (.busFault address write)) :
    e.lastError = some (.busFault address write) := by
  rw [Engine.accept] at h
  split at h
  · exact h
  · exact h
  · split at h
    · cases h
    · unfold obey at h
      split at h
      · exact h
      · next clear _ hs =>
        cases clear with
        | true => cases h
        | false => exact h
      · cases h
      · cases h
      · exact h

/-- No decision makes one. -/
theorem fault_of_act {address : Address} {write : Bool}
    (h : e.act.lastError = some (.busFault address write)) :
    e.lastError = some (.busFault address write) := by
  rw [Engine.act] at h
  split at h
  · rcases e.readHeader_cases with ⟨-, -, hx⟩ | ⟨opcode, operand, rest, -, hx⟩ | ⟨b, -, -, hx⟩ |
      ⟨-, -, hx⟩
    · rwa [hx] at h
    · rcases hx with ⟨error, -, hx⟩ | ⟨target, value, -, hx⟩ | ⟨header, a, -, -, hx⟩
      · rw [hx] at h
        cases h
      · rwa [hx] at h
      · rwa [hx] at h
    · rw [hx] at h
      cases h
    · rwa [hx] at h
  · next a hs =>
    rcases e.execute_cases a with ⟨-, -, hx⟩ | ⟨hx, -⟩ | ⟨-, hx⟩
    · rw [hx] at h
      cases h
    · rwa [hx] at h
    · rcases hx with ⟨t, -, -, hx⟩ | ⟨t, -, -, -, hx⟩ | ⟨p, -, -, hx⟩ | ⟨p, -, -, hx⟩ <;>
        rwa [hx] at h
  · exact h
  · exact h
  · exact h
  · exact h

/-- The first part of a cycle. -/
theorem Balanced.rest (h : e.Balanced entries results)
    (hrun : ∀ verdict, e.stage ≠ .ended verdict) : e.rest.Balanced entries results :=
  h.keep hrun h.sound.rest h.issued (h.no_fault hrun)

/-- The third part of a cycle. It does nothing to a run that has ended. -/
theorem Balanced.accept (h : e.Balanced entries results) (word : Command.Word) :
    (e.accept word).1.Balanced entries results := by
  by_cases hended : ∃ verdict, e.stage = .ended verdict
  · obtain ⟨verdict, hs⟩ := hended
    rw [Engine.accept, hs]
    exact h
  · have hrun := not_exists.mp hended
    refine h.keep hrun (h.sound.accept word) ?_ ?_
    · rw [bus_accept]
      exact h.issued
    · intro address write hfault
      exact h.no_fault hrun address write (fault_of_accept hfault)

/-- The fourth part of a cycle: a transaction that it begins is outstanding. -/
theorem Balanced.act (h : e.Balanced entries results) : e.act.Balanced entries results := by
  by_cases hended : ∃ verdict, e.stage = .ended verdict
  · obtain ⟨verdict, hs⟩ := hended
    rw [Engine.act, hs]
    exact h
  · have hrun := not_exists.mp hended
    refine h.keep hrun h.sound.act ?_ ?_
    · have hissued := h.issued
      rcases e.bus_act with hbus | ⟨hout, t, hbus⟩
      · rw [hbus]
        exact hissued
      · rw [hout] at hissued
        rw [hbus]
        exact congrArg Nat.succ hissued
    · intro address write hfault
      exact h.no_fault hrun address write (fault_of_act hfault)

/-- **A cycle against a memory keeps the books**, as long as the run goes on before it. -/
theorem Balanced.step (h : e.Balanced entries results)
    (hrun : ∀ verdict, e.stage ≠ .ended verdict) (memory : Bus.Memory) (word : Command.Word)
    {report : Report} (hx : e.step word (memory.respond e.request).1 = (e', report)) :
    ∃ added, (memory.respond e.request).2.log.toList = memory.log.toList ++ added ∧
      e'.Balanced (entries ++ added) (results ++ report.result.toList) := by
  have hrest : ∀ verdict, e.rest.stage ≠ .ended verdict := by
    intro verdict
    rw [rest_eq hrun]
    exact hrun verdict
  obtain ⟨added, hlog, hsettled⟩ := (h.rest hrun).settle hrest memory
  refine ⟨added, hlog, ?_⟩
  rw [Engine.step] at hx
  cases hx
  exact (hsettled.accept word).act

end Engine

end BusScript
