import BusScript.Proofs.Run.Stream
import BusScript.Proofs.Semantics.Leftover

/-!
# Which Bytes Run

A client may send any bytes, framed in any way. This module says what a run makes of them: bytes
that are complete operations run as these do, and complete exactly when they all succeed; a
header that names no operation ends the run behind the operations before it; and of an operation
that is cut short no value is written that was not sent whole.

## Main results

* `runWords_accepts_grammar` — which bytes complete, and that no framing makes a difference.
* `runWords_truncated` — a truncated byte string never completes.
-/

namespace BusScript

open Run

variable {options : Options} {memory : Bus.Memory} {words : List Command.Word}
  {bytes : List Byte} {idleGap : Nat} {summary : Summary}

/-! ### Complete operations and headers that name none -/

/-- **The operations in a byte string decide whether a run completes.** -/
theorem completed_iff_readAll? (hframed : Command.Framed words bytes)
    (h : (runWords options memory words idleGap).1 = .ok summary) :
    summary.verdict = .completed ↔ ∃ ops m, Op.readAll? bytes = some ops ∧
      (Machine.initial options memory.atomic).executeAll options.stride ops = (m, none) := by
  obtain ⟨c, hc, hreports⟩ := exists_concludes_of_runWords hframed h
  rw [hreports.verdict]
  constructor
  · exact hc.completed_inv
  · rintro ⟨ops, m, hread, hall⟩
    rw [hc.eq_of_readAll? hread, hall]
    rfl

/-- A header that names no operation ends the run, behind the operations before it. -/
theorem reports_malformedHeader {done rest : List Byte} {opcode operand : Byte} {ops : List Op}
    {m : Machine} {error : DecodeError}
    (hframed : Command.Framed words (done ++ opcode :: operand :: rest))
    (h : (runWords options memory words idleGap).1 = .ok summary)
    (hdone : Op.readAll? done = some ops)
    (hall : (Machine.initial options memory.atomic).executeAll options.stride ops = (m, none))
    (hd : Header.decode opcode operand = .error error) :
    summary.Reports (runWords options memory words idleGap).2
      ⟨.errored, some (.undecodable (.malformedHeader opcode)), m⟩ := by
  obtain ⟨c, hc, hreports⟩ := exists_concludes_of_runWords hframed h
  have hafter := hc.executeAll hdone
  rw [hall] at hafter
  cases hafter with
  | malformed hd' =>
      rw [Header.eq_malformedHeader_of_decode hd'] at hreports
      exact hreports
  | cutWrite hd' => simp [hd] at hd'
  | next hd' => simp [hd] at hd'
  | stop hd' => simp [hd] at hd'

/-- Unless an operation is cut short, the report is determined by the bytes. -/
theorem reports_executeBytes (hframed : Command.Framed words bytes)
    (h : (runWords options memory words idleGap).1 = .ok summary)
    (hleft : (Op.readAll bytes).2 ≠ .incomplete) :
    summary.Reports (runWords options memory words idleGap).2
      (Machine.conclude
        ((Machine.initial options memory.atomic).executeBytes options.stride bytes)) := by
  obtain ⟨c, hc, hreports⟩ := exists_concludes_of_runWords hframed h
  rw [← hc.eq_conclude hleft]
  exact hreports

/-- **A run accepts exactly the grammar of scripts, whatever the framing.** It completes exactly
if the bytes are complete operations that all succeed. A header that names no operation, behind
operations that all succeed, is reported with its first byte and the transactions of these
operations. And in both cases the report is what the bytes alone determine, so that it is the same
for every framing of them, every pause of the client, every number of wait states and every limit
that is kept. -/
theorem runWords_accepts_grammar (hframed : Command.Framed words bytes)
    (h : (runWords options memory words idleGap).1 = .ok summary) :
    (summary.verdict = .completed ↔ ∃ ops m, Op.readAll? bytes = some ops ∧
      (Machine.initial options memory.atomic).executeAll options.stride ops = (m, none)) ∧
    (∀ done opcode operand rest ops m error, bytes = done ++ opcode :: operand :: rest →
      Op.readAll? done = some ops →
      (Machine.initial options memory.atomic).executeAll options.stride ops = (m, none) →
      Header.decode opcode operand = .error error →
      summary.Reports (runWords options memory words idleGap).2
        ⟨.errored, some (.undecodable (.malformedHeader opcode)), m⟩) ∧
    ((Op.readAll bytes).2 ≠ .incomplete →
      summary.Reports (runWords options memory words idleGap).2
        (Machine.conclude
          ((Machine.initial options memory.atomic).executeBytes options.stride bytes)) ∧
      ∀ options' (memory' : Bus.Memory) words' idleGap' summary', options.Alike options' →
        memory.atomic = memory'.atomic → Command.Framed words' bytes →
        (runWords options' memory' words' idleGap').1 = .ok summary' →
        summary.Agrees summary' ∧
          (runWords options memory words idleGap).2.atomic =
            (runWords options' memory' words' idleGap').2.atomic) := by
  refine ⟨completed_iff_readAll? hframed h, ?_, ?_⟩
  · rintro done opcode operand rest ops m error rfl hdone hall hd
    exact reports_malformedHeader hframed h hdone hall hd
  · intro hleft
    have hreports := reports_executeBytes hframed h hleft
    refine ⟨hreports, ?_⟩
    intro options' memory' words' idleGap' summary' halike hview hframed' h'
    have hreports' := reports_executeBytes hframed' h' hleft
    rw [← halike.initial_eq, ← halike.stride, ← hview] at hreports'
    exact hreports.agrees hreports'

/-- Words that frame the setting of a page, a write of two bytes and then three bytes that begin
with no header, with idle and empty words between them. -/
def Command.scattered : List Command.Word :=
  [Command.idle, .start false, .data (.take [0x03]) false, .idle, .data .empty false,
    .data (.take [0x40, 0xe4, 0x04, 0x12, 0x34, 0xff]) false,
    .data (.take [0x00, 0x01]) true].map Command.pack

/-- The bytes in the scattered words. -/
theorem Command.framed_scattered :
    Command.Framed Command.scattered [0x03, 0x40, 0xe4, 0x04, 0x12, 0x34, 0xff, 0x00, 0x01] := by
  refine .idle (decode_pack _) (.start (decode_pack _) (.data (decode_pack _) ?_))
  exact .idle (decode_pack _) (.data (decode_pack _) (.data (decode_pack _)
    (.last (decode_pack _) (List.forall_mem_nil _))))

/-- The setting of a page and a write of two bytes. -/
def Op.sample : List Op := [.set ⟨.address, 3⟩ 0x40, .write 0x04 .byte [0x12, 0x34] true]

/-- The sample, as it is read. -/
theorem Op.readAll?_sample : Op.readAll? [0x03, 0x40, 0xe4, 0x04, 0x12, 0x34] = some Op.sample :=
  Op.readAll?_bytes_append (show Op.Valid (.set ⟨.address, 3⟩ 0x40) from rfl)
    (Op.readAll?_bytes_append (show Op.Valid (.write 0x04 .byte [0x12, 0x34] true) from rfl)
      Op.readAll?_nil)

/-- Of the scattered words the write is carried out in its page, and the header behind it
refused. -/
theorem runWords_accepts_grammar_scattered :
    (runWords {} Bus.Memory.sample Command.scattered 1).1 =
        .ok ⟨.errored, some (.undecodable (.malformedHeader 0xff)), #[], 20, 2⟩ ∧
      Summary.Reports ⟨.errored, some (.undecodable (.malformedHeader 0xff)), #[], 20, 2⟩
        (runWords {} Bus.Memory.sample Command.scattered 1).2
        ⟨.errored, some (.undecodable (.malformedHeader 0xff)),
          ((Machine.initial {} Bus.Memory.sample.atomic).executeAll 1 Op.sample).1⟩ ∧
      ((Machine.initial {} Bus.Memory.sample.atomic).executeAll 1 Op.sample).1.memory.log =
        [⟨⟨0x40000004, .write 0x12⟩, false⟩, ⟨⟨0x40000005, .write 0x34⟩, false⟩] := by
  have hrun : (runWords {} Bus.Memory.sample Command.scattered 1).1 =
      .ok ⟨.errored, some (.undecodable (.malformedHeader 0xff)), #[], 20, 2⟩ := by
    rw [runWords, complete, drive_new]
    rfl
  have hgrammar := runWords_accepts_grammar Command.framed_scattered hrun
  exact ⟨hrun, hgrammar.2.1 _ _ _ _ _ _ _ rfl Op.readAll?_sample rfl rfl, rfl⟩

/-! ### Truncated byte strings -/

/-- Operations that are followed by one that is cut short run as they do alone, and what follows
is given up. -/
theorem concludes_truncated {stride : Value} {m : Machine} {done tail : List Byte}
    {ops : List Op} {c : Conclusion} (hdone : Op.readAll? done = some ops)
    (htail : Op.Truncated tail) (hc : m.Concludes stride (done ++ tail) c) :
    (∀ m', m.executeAll stride ops = (m', none) →
      ∃ made, made <+: m'.supplied stride tail ∧ m'.GivesUp made c) ∧
    (∀ m' stop, m.executeAll stride ops = (m', some stop) →
      c = Machine.conclude (m', some stop)) := by
  have hafter := hc.executeAll hdone
  constructor
  · intro m' hall
    rw [hall] at hafter
    exact hafter.exists_givesUp htail
  · intro m' stop hall
    rw [hall] at hafter
    exact hafter

/-- **A truncated byte string never completes and never writes invented data.** Behind operations
that all succeed, the run ends in an error: it misses bytes, or meets a fault of the operation that
is cut short. Its transactions are those of the complete operations and then writes of the first of
the values that were sent whole. If one of the complete operations fails, the run is as one of these
operations alone, in any framing. -/
theorem runWords_truncated {done tail : List Byte} {ops : List Op}
    (hdone : Op.readAll? done = some ops) (htail : Op.Truncated tail)
    (hframed : Command.Framed words (done ++ tail))
    (h : (runWords options memory words idleGap).1 = .ok summary) :
    (∀ m, (Machine.initial options memory.atomic).executeAll options.stride ops = (m, none) →
      ∃ made c, made <+: m.supplied options.stride tail ∧ m.GivesUp made c ∧
        summary.Reports (runWords options memory words idleGap).2 c ∧
        (runWords options memory words idleGap).2.log.toList.map Bus.LogEntry.transaction =
          m.memory.log.map Bus.LogEntry.transaction ++ made.map .ofWrite) ∧
    (∀ m stop,
      (Machine.initial options memory.atomic).executeAll options.stride ops = (m, some stop) →
      summary.Reports (runWords options memory words idleGap).2
        (Machine.conclude (m, some stop)) ∧
      ∀ options' (memory' : Bus.Memory) words' idleGap' summary', options.Alike options' →
        memory.atomic = memory'.atomic → Command.Framed words' done →
        (runWords options' memory' words' idleGap').1 = .ok summary' →
        summary.Agrees summary' ∧
          (runWords options memory words idleGap).2.atomic =
            (runWords options' memory' words' idleGap').2.atomic) := by
  obtain ⟨c, hc, hreports⟩ := exists_concludes_of_runWords hframed h
  obtain ⟨hgives, hstop⟩ := concludes_truncated hdone htail hc
  constructor
  · intro m hall
    obtain ⟨made, hprefix, hgive⟩ := hgives m hall
    refine ⟨made, c, hprefix, hgive, hreports, ?_⟩
    have hlog := congrArg (fun a => a.log.map Bus.LogEntry.transaction)
      (hreports.memory.trans hgive.memory)
    exact hlog.trans (Bus.Atomic.log_performAll _ _)
  · intro m stop hall
    rw [hstop m stop hall] at hreports
    refine ⟨hreports, ?_⟩
    intro options' memory' words' idleGap' summary' halike hview hframed' h'
    obtain ⟨c', hc', hreports'⟩ := exists_concludes_of_runWords hframed' h'
    rw [← halike.initial_eq, ← halike.stride, ← hview] at hc'
    rw [hc'.eq_of_readAll? hdone, hall] at hreports'
    exact hreports.agrees hreports'

/-- Words that frame the setting of a page, a write of two bytes and another one that lacks its
second byte. The input is closed late, so that the first byte is written before it is known that
the second will not come. -/
def Command.lingering : List Command.Word :=
  [Command.start true, .data (.take [0x03, 0x40, 0xe4, 0x04, 0x12, 0x34]) false,
    .data (.take [0xe4, 0x10, 0x55]) false, .idle, .idle, .idle, .idle, .idle, .idle,
    .data .empty true].map Command.pack

/-- The bytes in the lingering words. -/
theorem Command.framed_lingering : Command.Framed Command.lingering
    ([0x03, 0x40, 0xe4, 0x04, 0x12, 0x34] ++ [0xe4, 0x10, 0x55]) := by
  refine .start (decode_pack _) (.data (decode_pack _) (.data (decode_pack _) ?_))
  refine .idle (decode_pack _) (.idle (decode_pack _) (.idle (decode_pack _) ?_))
  refine .idle (decode_pack _) (.idle (decode_pack _) (.idle (decode_pack _) ?_))
  exact .last (decode_pack _) (List.forall_mem_nil _)

/-- On a memory that fails at the address of the write that is cut short, the run ends with that
fault. -/
theorem runWords_truncated_lingering :
    (runWords {} (Bus.Memory.sample.addFault 0x40000010) Command.lingering 1).1 =
        .ok ⟨.errored, some (.busFault 0x40000010 true), #[], 16, 3⟩ ∧
      ∃ made c, made <+: [(0x40000010, 0x55)] ∧
        Machine.GivesUp ((Machine.initial {}
          (Bus.Memory.sample.addFault 0x40000010).atomic).executeAll 1 Op.sample).1 made c ∧
        Summary.Reports ⟨.errored, some (.busFault 0x40000010 true), #[], 16, 3⟩
          (runWords {} (Bus.Memory.sample.addFault 0x40000010) Command.lingering 1).2 c := by
  have hrun : (runWords {} (Bus.Memory.sample.addFault 0x40000010) Command.lingering 1).1 =
      .ok ⟨.errored, some (.busFault 0x40000010 true), #[], 16, 3⟩ := by
    rw [runWords, complete, drive_new]
    rfl
  have htail : Op.Truncated [0xe4, 0x10, 0x55] :=
    @Op.Truncated.data 0xe4 0x10 (.write 0x10 .byte 2 true) [0x55] rfl (by decide)
  have htruncated := runWords_truncated Op.readAll?_sample htail Command.framed_lingering hrun
  obtain ⟨made, c, hprefix, hgives, hreports, -⟩ := htruncated.1 _ rfl
  exact ⟨hrun, made, c, hprefix, hgives, hreports⟩

end BusScript
