import BusScript.Proofs.Engine.Balance
import BusScript.Proofs.Run.Stored

/-!
# The Accounts of a Run

A summary tells how many transactions a run has made, why it has failed and which values it has
read. The memory that the run was made on has logged every transaction on its own. The two
accounts agree, whatever the words were: the books that an engine keeps (`Engine.Balanced`) are
open during a run, and closed with the cycle that ends it.

## Main results

* `Engine.Open.present` — a presentation closes the books of an engine or leaves them open.
* `runs_keep_accounts` — a summary accounts for what the run has added to the log.
-/

namespace BusScript

open Command (Word)

namespace Run

/-- A summary accounts for a list of log entries. -/
structure Summary.Accounts (summary : Summary) (entries : List Bus.LogEntry) : Prop where
  /-- Every transaction was logged. -/
  transactions : summary.transactions = entries.length
  /-- No transaction was made after one that failed. -/
  clean : ∀ entry ∈ entries.dropLast, entry.faulted = false
  /-- A run of which a transaction failed has failed. -/
  errored : ∀ entry, entries.getLast? = some entry → entry.faulted = true →
    summary.verdict = .errored
  /-- An error that names a transaction names the last one, which has failed. -/
  fault : ∀ address write, summary.error = some (.busFault address write) →
    ∃ entry, entries.getLast? = some entry ∧ entry.faulted = true ∧
      entry.transaction.address = address ∧ entry.transaction.isWrite = write
  /-- Reported values fit their width. -/
  fits : ∀ r ∈ summary.results, r.value &&& r.width.mask = r.value
  /-- Every reported value was found by a read. -/
  found : summary.results.size ≤ entries.countP Bus.LogEntry.isFinding

end Run

namespace Engine

variable {e : Engine} {start memory : Bus.Memory} {results : List ReadResult}

/-- The books of an engine and those of a memory that was `start` when the run began. -/
def Agrees (start : Bus.Memory) (e : Engine) (memory : Bus.Memory) (results : List ReadResult) :
    Prop :=
  ∃ entries, memory.log.toList = start.log.toList ++ entries ∧ e.Balanced entries results

/-- The books in the middle of a run. -/
def Open (start : Bus.Memory) (e : Engine) (memory : Bus.Memory) (results : List ReadResult) :
    Prop :=
  Agrees start e memory results ∧ ∀ verdict, e.stage ≠ .ended verdict

/-- The books of a run that has just ended. -/
def Closed (start : Bus.Memory) (e : Engine) (memory : Bus.Memory) (results : List ReadResult)
    (verdict : Verdict) : Prop :=
  Agrees start e memory results ∧ e.stage = .ended verdict

/-- A new engine opens its books. -/
theorem open_new (options : Options) (memory : Bus.Memory) :
    Open memory (new options) memory [] :=
  ⟨⟨[], (List.append_nil _).symm, balanced_new options⟩, by rintro verdict ⟨⟩⟩

/-- **A presentation closes the books or leaves them open.** -/
theorem Open.present {held : Option Word} {p : Feeder.Presentation}
    (h : Open start e memory results)
    (hp : Feeder.present e held (memory.respond e.request).1 = p) :
    (∃ verdict, p.report.status = .ended verdict ∧
      Closed start p.engine (memory.respond e.request).2 (results ++ p.report.result.toList)
        verdict) ∨
    (p.report.status.isTerminal = false ∧
      Open start p.engine (memory.respond e.request).2
        (results ++ p.report.result.toList)) := by
  obtain ⟨⟨entries, hlog, hbalanced⟩, hrun⟩ := h
  have hpair := Feeder.present_step e held (memory.respond e.request).1
  have hstatus := Feeder.status_present e held (memory.respond e.request).1
  rw [hp] at hpair hstatus
  obtain ⟨added, hadded, hbalanced'⟩ := hbalanced.step hrun memory _ hpair.symm
  have hagrees : Agrees start p.engine (memory.respond e.request).2
      (results ++ p.report.result.toList) :=
    ⟨entries ++ added, by rw [hadded, hlog, List.append_assoc], hbalanced'⟩
  rw [hstatus, status]
  cases hs : p.engine.stage with
  | ended verdict => exact .inl ⟨verdict, rfl, hagrees, hs⟩
  | idle | header | executing a | completing | draining verdict =>
      refine .inr ⟨rfl, hagrees, ?_⟩
      rw [hs]
      rintro verdict ⟨⟩

/-- When the books are closed nothing is outstanding, and the summary accounts for the log. -/
theorem Closed.accounts {tally : Run.Tally} {verdict : Verdict}
    (h : Closed start e memory tally.results.toList verdict) :
    ∃ entries, memory.log.toList = start.log.toList ++ entries ∧
      (Run.summarize e verdict tally).Accounts entries := by
  obtain ⟨⟨entries, hlog, hbalanced⟩, hs⟩ := h
  refine ⟨entries, hlog, ?_, hbalanced.clean, ?_, ?_, ?_, ?_⟩
  · have hissued := hbalanced.issued
    have hout : e.bus.outstanding? = none := hbalanced.sound.fits_of hs
    rw [hout] at hissued
    exact hissued
  · intro entry hlast hfaulted
    have herrored := hbalanced.errored entry hlast hfaulted
    rw [hs] at herrored
    cases herrored
    rfl
  · intro address write herror
    rw [Run.summarize] at herror
    split at herror
    · cases herror
    · exact hbalanced.fault address write herror
  · intro r hr
    exact hbalanced.fits r (Array.mem_toList_iff.mpr hr)
  · exact hbalanced.found

end Engine

namespace Run

/-- **A run accounts for what it adds to the log**, if every cycle keeps its books. -/
theorem complete_accounts {σ : Type} {cycle : σ → σ × Report} {engine : σ → Engine}
    {memory : σ → Bus.Memory} {Inv : List ReadResult → σ → Prop} {start : Bus.Memory}
    (hcycle : ∀ results s, Inv results s →
      Advances (fun results verdict s => Engine.Closed start (engine s) (memory s) results verdict)
        Inv results (cycle s))
    {s : σ} {summary : Summary} (hinv : Inv [] s)
    (h : (complete cycle engine s).1 = .ok summary) :
    ∃ entries, (memory (complete cycle engine s).2).log.toList = start.log.toList ++ entries ∧
      summary.Accounts entries := by
  obtain ⟨verdict, tally, hclosed, rfl⟩ := complete_ended hcycle hinv h
  exact hclosed.accounts

/-- A client's system keeps its books. -/
theorem StreamSystem.open_cycle {start : Bus.Memory} (results : List ReadResult)
    (s : StreamSystem Bus.Memory) (h : Engine.Open start s.engine s.target results) :
    Advances (fun results verdict s => Engine.Closed start s.engine s.target results verdict)
      (fun results s => Engine.Open start s.engine s.target results) results s.cycle := by
  obtain ⟨held, pending, gap, p, -, hp, hx, -⟩ := s.cycle_cases
  rw [hx]
  exact h.present hp

namespace StoredSystem

/-- A system whose next cycle is that of one past its request, the books of which are open. -/
def Open (start : Bus.Memory) (results : List ReadResult) (s : StoredSystem Bus.Memory) : Prop :=
  ∃ s' : StoredSystem Bus.Memory, s.cycle = s'.cycle ∧ s'.request = none ∧
    Engine.Open start s'.engine s'.target results

/-- A store's system keeps its books. -/
theorem open_cycle {start : Bus.Memory} (results : List ReadResult) (s : StoredSystem Bus.Memory)
    (h : Open start results s) :
    Advances (fun results verdict s => Engine.Closed start s.engine s.target results verdict)
      (Open start) results s.cycle := by
  obtain ⟨s', hsame, hrequest, hopen⟩ := h
  obtain ⟨p, hp, hx⟩ := cycle_cases hrequest
  rw [hsame, hx]
  have hkept := hopen.present hp
  rw [← (s'.feeder.awaitWord s'.store).engine_resume s'.store p] at hkept
  rcases hkept with hended | ⟨hstatus, hopen'⟩
  · exact .inl hended
  · exact .inr ⟨hstatus, _, rfl, rfl, hopen'⟩

end StoredSystem

end Run

open Run

/-- **A summary accounts for what the run has added to the log**, for words of any kind and any
pauses of a client, and for a store with any contents and any address in it. -/
theorem runs_keep_accounts (options : Options) (memory : Bus.Memory) :
    (∀ words idleGap summary, (runWords options memory words idleGap).1 = .ok summary →
      ∃ entries, (runWords options memory words idleGap).2.log.toList =
        memory.log.toList ++ entries ∧ summary.Accounts entries) ∧
    (∀ store address summary, (runStored options store memory address).1 = .ok summary →
      ∃ entries, (runStored options store memory address).2.log.toList =
        memory.log.toList ++ entries ∧ summary.Accounts entries) := by
  constructor
  · intro words idleGap summary h
    exact complete_accounts StreamSystem.open_cycle (Engine.open_new options memory) h
  · intro store address summary h
    exact complete_accounts StoredSystem.open_cycle
      ⟨_, StoredSystem.cycle_new options store memory address, rfl,
        Engine.open_new options memory⟩ h

/-- Words that start a script and read the addresses 4 and 5 in one operation. -/
def Command.readPair : List Word := [⟨0x0010000000000000⟩, ⟨0x00220000000004a6⟩]

/-- A memory that has been used before, and fails at address 5. -/
def Bus.Memory.failing : Bus.Memory :=
  ((({} : Bus.Memory).record ⟨0, .read⟩ true).store 4 0x12345678).addFault 5

/-- A run of `Command.readPair` reports the value at the first address and the fault at the
second. -/
theorem runWords_readPair : (runWords {} Bus.Memory.failing Command.readPair 3).1 =
    .ok ⟨.errored, some (.busFault 5 false), #[⟨.word, 0x12345678⟩], 10, 2⟩ := by
  rw [runWords, complete, drive_new]
  rfl

/-- Both runs of `Command.readPair` report the value at the first address and the fault at the
second, and the entry of the earlier failure is not theirs. -/
theorem runs_keep_accounts_failing :
    ((runWords {} Bus.Memory.failing Command.readPair 3).1 =
        .ok ⟨.errored, some (.busFault 5 false), #[⟨.word, 0x12345678⟩], 10, 2⟩ ∧
      ∃ entries, (runWords {} Bus.Memory.failing Command.readPair 3).2.log.toList =
        Bus.Memory.failing.log.toList ++ entries ∧
        Summary.Accounts ⟨.errored, some (.busFault 5 false), #[⟨.word, 0x12345678⟩], 10, 2⟩
          entries) ∧
    ((runStored {} (.ofWords Command.readPair.toArray 2) Bus.Memory.failing 0).1 =
        .ok ⟨.errored, some (.busFault 5 false), #[⟨.word, 0x12345678⟩], 11, 2⟩ ∧
      ∃ entries,
        (runStored {} (.ofWords Command.readPair.toArray 2) Bus.Memory.failing 0).2.log.toList =
          Bus.Memory.failing.log.toList ++ entries ∧
        Summary.Accounts ⟨.errored, some (.busFault 5 false), #[⟨.word, 0x12345678⟩], 11, 2⟩
          entries) := by
  obtain ⟨hwords, hstored⟩ := runs_keep_accounts {} Bus.Memory.failing
  have hsent := runWords_readPair
  have hfetched : (runStored {} (.ofWords Command.readPair.toArray 2) Bus.Memory.failing 0).1 =
      .ok ⟨.errored, some (.busFault 5 false), #[⟨.word, 0x12345678⟩], 11, 2⟩ := by
    rw [runStored, complete, drive_new]
    rfl
  exact ⟨⟨hsent, hwords Command.readPair 3 _ hsent⟩, ⟨hfetched, hstored _ 0 _ hfetched⟩⟩

end BusScript
