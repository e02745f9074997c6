import BusScript.Proofs.Run.Reporting
import BusScript.Run.Stream

/-!
# Runs of Lists of Words

A run of words that frame a byte string reports what may become of those bytes: the framing, the
pauses of the client and the wait states of the target leave no trace in the report. For the
words of a script that is what the interpreter says.

## Main results

* `exists_concludes_of_runWords` — a run of words reports what may become of the bytes in them.
* `runScript_reports_interpret` — a script runs as it is interpreted.
-/

namespace BusScript

namespace Run.StreamSystem

/-- What is offered is the first of the words that have not been acknowledged. -/
theorem pending_of_offer {s : StreamSystem Bus.Memory} {w : Command.Word}
    (h : s.offer = some w) : ∃ rest, s.pending = w :: rest := by
  rw [offer] at h
  split at h
  · exact List.head?_eq_some_iff.mp h
  · cases h

/-- One cycle presents the word that is held, or takes the next one from the client and presents
it at once. Either way the words to come are the same as before. No word is taken only if none is
offered or the feeder is not open to it. -/
theorem cycle_cases (s : StreamSystem Bus.Memory) :
    ∃ held pending gap p, s.feeder.held.toList ++ s.pending = held.toList ++ pending ∧
      Feeder.present s.engine held (s.target.respond s.engine.request).1 = p ∧
      s.cycle = (⟨⟨p.engine, p.held⟩, (s.target.respond s.engine.request).2, pending, gap,
        s.idleGap⟩, p.report) ∧
      ((held = s.feeder.held ∧ pending = s.pending ∧ gap = s.gap - 1 ∧
          (s.offer = none ∨ s.feeder.isOpen = false)) ∨
        (s.feeder.held = none ∧ held.isSome = true)) := by
  obtain ⟨⟨e, held⟩, memory, pending, gap, idleGap⟩ := s
  cases hack : ((StreamSystem.mk ⟨e, held⟩ memory pending gap idleGap).offer.isSome &&
      (Feeder.Stream.mk e held).isOpen) with
  | false =>
      refine ⟨held, pending, gap - 1, _, rfl, rfl, ?_, .inl ⟨rfl, rfl, rfl, ?_⟩⟩
      · simp [cycle, Feeder.Stream.cycle, Feeder.Stream.step, hack, engine, Bus.Target.respond]
      · rcases Bool.and_eq_false_iff.mp hack with hnone | hclosed
        · exact .inl (Option.isNone_iff_eq_none.mp (Option.isSome_eq_false_iff.mp hnone))
        · exact .inr hclosed
  | true =>
      obtain ⟨hsome, hopen⟩ := Bool.and_eq_true_iff.mp hack
      obtain ⟨w, hoffer⟩ := Option.isSome_iff_exists.mp hsome
      obtain ⟨rest, rfl⟩ : ∃ rest, pending = w :: rest := pending_of_offer hoffer
      obtain rfl : held = none := by
        have hnone := (Bool.and_eq_true_iff.mp hopen).1
        exact Option.isNone_iff_eq_none.mp hnone
      refine ⟨some w, rest, idleGap, _, rfl, rfl, ?_, .inr ⟨rfl, rfl⟩⟩
      simp [cycle, Feeder.Stream.cycle, Feeder.Stream.step, hopen, hoffer, engine,
        Bus.Target.respond]

/-- A system whose run is underway with the word that is held and those of the client. -/
def Underway (C : Conclusion → Prop) (results : List ReadResult)
    (s : StreamSystem Bus.Memory) : Prop :=
  s.engine.Underway s.target (s.feeder.held.toList ++ s.pending) results C

/-- A system whose run has come to a conclusion. -/
def Concluded (C : Conclusion → Prop) (results : List ReadResult) (verdict : Verdict)
    (s : StreamSystem Bus.Memory) : Prop :=
  s.engine.Concluded s.target results verdict C

/-- One cycle of a system that is underway ends its run or leaves it underway. -/
theorem advances_cycle {C : Conclusion → Prop} (results : List ReadResult)
    (s : StreamSystem Bus.Memory) (h : Underway C results s) :
    Advances (Concluded C) (Underway C) results s.cycle := by
  obtain ⟨held, pending, gap, p, hwords, hp, hx, -⟩ := s.cycle_cases
  rw [Underway, hwords] at h
  rw [hx]
  rcases h.present hp with hend | ⟨hopen, hon⟩
  · exact .inl hend
  · exact .inr ⟨hopen, hon⟩

end Run.StreamSystem

/-- Options that differ in their limit on cycles at most. -/
structure Options.Alike (options options' : Options) : Prop where
  pollCount : options.pollCount = options'.pollCount
  pollDelay : options.pollDelay = options'.pollDelay
  stride : options.stride = options'.stride

/-- The register defaults do not depend on the limit on cycles. -/
theorem Options.Alike.registers_eq {options options' : Options} (h : options.Alike options') :
    Registers.initial options = Registers.initial options' := by
  rw [Registers.initial, Registers.initial, h.pollCount, h.pollDelay]

/-- The machine that a script begins on does not depend on the limit on cycles. -/
theorem Options.Alike.initial_eq {options options' : Options} (h : options.Alike options')
    (memory : Bus.Atomic) : Machine.initial options memory = Machine.initial options' memory := by
  rw [Machine.initial, Machine.initial, ← Registers.table_initial, ← Registers.table_initial,
    h.registers_eq]

open Run

variable {options : Options} {memory : Bus.Memory} {words : List Command.Word}
  {bytes : List Byte} {idleGap : Nat} {summary : Summary}

/-- **A run of words reports what may become of the bytes in them**, whatever the framing and
however the target and the client wait. -/
theorem exists_concludes_of_runWords (hframed : Command.Framed words bytes)
    (h : (runWords options memory words idleGap).1 = .ok summary) :
    ∃ c, (Machine.initial options memory.atomic).Concludes options.stride bytes c ∧
      summary.Reports (runWords options memory words idleGap).2 c :=
  complete_reports StreamSystem.advances_cycle
    (Engine.underway_new memory hframed) h

/-- **A script runs as it is interpreted.** However the target waits and the client pauses, a run
that ends within its limit reports the verdict, error, results and transactions of the
interpreter, and leaves the memory, the upcoming reads and the log that it leaves. -/
theorem runScript_reports_interpret {script : Script}
    (h : (runScript options memory script idleGap).1 = .ok summary) :
    summary.Reports (runScript options memory script idleGap).2
      (Machine.conclude (script.interpret options memory.atomic)) := by
  obtain ⟨c, hc, hreports⟩ := exists_concludes_of_runWords script.framed_words h
  rw [← Script.eq_conclude_interpret hc]
  exact hreports

/-- A script that selects a page and allows two attempts of a poll. It writes two bytes in the page,
reads the first one back and waits for a bit. -/
def Script.sample : Script :=
  (Script.empty.extend [.select 0x40000100, .setPollCount 2,
    .push (.write 4 .byte [0x12, 0x34] true), .push (.read 4 .word 1 false),
    .push (.poll 8 0 true)]).1

/-- A memory with a wait state. The bit that `Script.sample` waits for is set in the third read, and
outside of its page at once. -/
def Bus.Memory.sample : Bus.Memory :=
  (({ waitStates := 1 } : Bus.Memory).addReads 8 [1]).addReads 0x40000108 [0, 0, 1]

/-- The words of the sample: its 22 bytes take four data words. -/
theorem Script.words_sample : Script.sample.words =
    [⟨0x0010000000000000⟩, ⟨0x001e400300020101⟩, ⟨0x001e000e000d020c⟩, ⟨0x001e341204e4000f⟩,
      ⟨0x0024000008600482⟩] := by
  rw [Script.words, Script.commands, Command.frame_of_lt_length (by decide),
    Command.frame_of_lt_length (by decide), Command.frame_of_lt_length (by decide),
    Command.frame_of_length_le (by decide)]
  rfl

/-- The poll of the sample runs out after its two attempts, at an address in the page, both in the
interpreter and in a run with one pause of the client after each word. -/
theorem runScript_reports_interpret_sample :
    (Script.sample.interpret {} Bus.Memory.sample.atomic).2 =
        some (.pollFailed, .pollExhausted 0x40000108 2) ∧
      (runScript {} Bus.Memory.sample Script.sample 1).1 =
        .ok ⟨.pollFailed, some (.pollExhausted 0x40000108 2), #[⟨.word, 0x12⟩], 31, 5⟩ ∧
      Summary.Reports ⟨.pollFailed, some (.pollExhausted 0x40000108 2), #[⟨.word, 0x12⟩], 31, 5⟩
        (runScript {} Bus.Memory.sample Script.sample 1).2
        (Machine.conclude (Script.sample.interpret {} Bus.Memory.sample.atomic)) := by
  have hrun : (runScript {} Bus.Memory.sample Script.sample 1).1 =
      .ok ⟨.pollFailed, some (.pollExhausted 0x40000108 2), #[⟨.word, 0x12⟩], 31, 5⟩ := by
    rw [runScript, Script.words_sample, runWords, complete, drive_new]
    rfl
  exact ⟨rfl, hrun, runScript_reports_interpret hrun⟩

end BusScript
