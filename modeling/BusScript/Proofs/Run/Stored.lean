import BusScript.Proofs.Image.Placement
import BusScript.Proofs.Run.Stream
import BusScript.Run.Stored

/-!
# Runs of Stored Scripts

A stored feeder fetches the words of a script one after the other and presents each of them until
it is spent. Between the two it presents idle words, so an engine fed from a store is underway as
one that is fed by a client (`Feeder.Stored.Feeds`), although hardly a cycle of the two is alike.

## Main results

* `exists_concludes_of_runStored` — a run of stored words reports what may become of the bytes in
  them.
* `runStored_agrees_runScript` — a script in an image runs as the script does.
-/

namespace BusScript

open Command (Word)

namespace Feeder.Stored

/-- A feeder in the middle of a run, with the words `rest` still to be fetched: it has stopped if
there are none, and is fetching the first of them or presenting the word before. -/
structure Feeds (s : Stored) (store : Store) (rest : List Word) : Prop where
  finds : store.Finds s.pointer rest
  closing : Command.Closing (s.held.toList ++ rest)
  fetch : match s.fetch with
    | .stopped => s.held = none ∧ rest = []
    | .fetching _ => s.held = none ∧ rest ≠ []
    | .presenting => ∃ w, s.held = some w

variable {s : Stored} {store : Store} {rest : List Word}

/-- Waiting for a word leaves the words to come as they are. -/
theorem Feeds.awaitWord (h : s.Feeds store rest) :
    ∃ rest', (s.awaitWord store).Feeds store rest' ∧
      (s.awaitWord store).held.toList ++ rest' = s.held.toList ++ rest := by
  obtain ⟨hfinds, hclosing, hfetch⟩ := h
  rw [Stored.awaitWord]
  rcases hf : s.fetch with _ | (_ | remaining) | _
  · rw [hf] at hfetch
    exact ⟨rest, ⟨hfinds, hclosing, by rw [hf]; exact hfetch⟩, rfl⟩
  · -- the word arrives: it is the first of those that are found here
    rw [hf] at hfetch
    obtain ⟨hheld, hne⟩ := hfetch
    obtain ⟨w, rest', rfl⟩ := List.exists_cons_of_ne_nil hne
    obtain ⟨hw, hrest⟩ := hfinds
    rw [hheld] at hclosing
    refine ⟨rest', ⟨hrest, ?_, w, ?_⟩, ?_⟩
    · rw [hw]
      exact hclosing
    · rw [hw]
    · rw [hw, hheld]
      rfl
  · rw [hf] at hfetch
    exact ⟨rest, ⟨hfinds, hclosing, hfetch⟩, rfl⟩
  · rw [hf] at hfetch
    exact ⟨rest, ⟨hfinds, hclosing, by rw [hf]; exact hfetch⟩, rfl⟩

/-- As long as no word is spent, the feeder keeps on presenting or waiting. -/
theorem resume_of_spent_eq_none {p : Presentation} (hopen : p.report.status.isTerminal = false)
    (hspent : p.spent = none) :
    s.resume store p = { s with engine := p.engine, held := p.held } := by
  rw [Stored.resume, hspent, if_neg (by simp [hopen])]

/-- Behind a spent word the next one is fetched, unless the word was the last. -/
theorem resume_of_spent_eq_some {p : Presentation} {w : Word}
    (hopen : p.report.status.isTerminal = false) (hspent : p.spent = some w) :
    s.resume store p = { s with
      engine := p.engine
      held := p.held
      fetch := if w.isDataLast then .stopped else .fetching store.latency } := by
  rw [Stored.resume, hspent, if_neg (by simp [hopen])]

/-- After a presentation that did not end the run, the feeder goes on with what is left. -/
theorem Feeds.resume {e : Engine} {answer : Bus.Response} {p : Presentation}
    (h : s.Feeds store rest) (hp : present e s.held answer = p)
    (hopen : p.report.status.isTerminal = false) :
    (s.resume store p).Feeds store rest ∧ (s.resume store p).held = p.held := by
  obtain ⟨hfinds, hclosing, hfetch⟩ := h
  have hheld : p.held = s.held.bind (·.leftover? p.report.consumed) := by
    rw [← hp] at hopen ⊢
    exact held_present hopen
  have hspent : p.spent = p.held.elim s.held fun _ => none := by
    rw [← hp]
    exact spent_present _ _ _
  cases hs : s.held with
  | none =>
      have hnone : p.held = none := by rw [hheld, hs, Option.bind_none]
      rw [hnone, Option.elim_none, hs] at hspent
      rw [resume_of_spent_eq_none hopen hspent]
      rw [hs] at hclosing hfetch
      refine ⟨⟨hfinds, ?_, ?_⟩, rfl⟩
      · rw [hnone]
        exact hclosing
      · rw [hnone]
        exact hfetch
  | some w =>
      rw [hs] at hclosing hfetch hheld hspent
      rw [Option.bind_some] at hheld
      obtain ⟨hlast, hrest⟩ := hclosing
      cases hl : w.leftover? p.report.consumed with
      | none =>
          rw [hl] at hheld
          rw [hheld, Option.elim_none] at hspent
          rw [resume_of_spent_eq_some hopen hspent, hheld]
          by_cases hw : w.isDataLast = true
          · rw [if_pos hw]
            exact ⟨⟨hfinds, hrest, rfl, hlast.mp hw⟩, rfl⟩
          · rw [if_neg hw]
            exact ⟨⟨hfinds, hrest, rfl, fun hnil => hw (hlast.mpr hnil)⟩, rfl⟩
      | some w' =>
          rw [hl] at hheld
          rw [hheld, Option.elim_some] at hspent
          rw [resume_of_spent_eq_none hopen hspent, hheld]
          have hsame := Command.isDataLast_of_leftover? hl
          refine ⟨⟨hfinds, ⟨by rw [hsame]; exact hlast, hrest⟩, ?_⟩, rfl⟩
          cases hf : s.fetch with
          | stopped => simp [hf] at hfetch
          | fetching remaining => simp [hf] at hfetch
          | presenting => exact ⟨w', rfl⟩

/-- The engine of a presentation is the one that the feeder goes on with. -/
theorem engine_resume (s : Stored) (store : Store) (p : Presentation) :
    (s.resume store p).engine = p.engine := by
  rw [Stored.resume]
  split <;> rfl

/-- Waiting for a word does not touch the engine. -/
theorem engine_awaitWord (s : Stored) (store : Store) :
    (s.awaitWord store).engine = s.engine := by
  rw [Stored.awaitWord]
  split <;> rfl

end Feeder.Stored

namespace Run.StoredSystem

/-- One cycle after the request has been acknowledged: a wait, a presentation, and what follows
from it. -/
theorem cycle_cases {s : StoredSystem Bus.Memory} (h : s.request = none) :
    ∃ p, Feeder.present s.engine (s.feeder.awaitWord s.store).held
        (s.target.respond s.engine.request).1 = p ∧
      s.cycle = (⟨(s.feeder.awaitWord s.store).resume s.store p, s.store,
        (s.target.respond s.engine.request).2, none⟩, p.report) := by
  obtain ⟨feeder, store, memory, request⟩ := s
  obtain rfl : request = none := h
  refine ⟨Feeder.present (feeder.awaitWord store).engine (feeder.awaitWord store).held
    (memory.respond feeder.engine.request).1, ?_, rfl⟩
  rw [Feeder.Stored.engine_awaitWord]
  rfl

/-- The first cycle takes the request, and is otherwise as one in which the feeder has already
taken it. -/
theorem cycle_new (options : Options) (store : Store) (memory : Bus.Memory)
    (address : BitVec 16) :
    (new options store memory address).cycle =
      (⟨(Feeder.Stored.new options).begin store address, store, memory, none⟩ :
        StoredSystem Bus.Memory).cycle := rfl

/-- A system whose run has come to a conclusion. -/
def Concluded (C : Conclusion → Prop) (results : List ReadResult) (verdict : Verdict)
    (s : StoredSystem Bus.Memory) : Prop :=
  s.engine.Concluded s.target results verdict C

/-- A system whose request has been acknowledged and whose run is underway. -/
def Underway (C : Conclusion → Prop) (results : List ReadResult)
    (s : StoredSystem Bus.Memory) : Prop :=
  s.request = none ∧ ∃ rest, s.feeder.Feeds s.store rest ∧
    s.engine.Underway s.target (s.feeder.held.toList ++ rest) results C

/-- One cycle of a system that is underway ends its run or leaves it underway. -/
theorem Underway.cycle {s : StoredSystem Bus.Memory} {results : List ReadResult}
    {C : Conclusion → Prop} (h : Underway C results s) :
    Advances (Concluded C) (Underway C) results s.cycle := by
  obtain ⟨hrequest, rest, hfeeds, hunderway⟩ := h
  obtain ⟨rest', hfeeds', hwords⟩ := hfeeds.awaitWord
  obtain ⟨p, hp, hx⟩ := cycle_cases hrequest
  rw [← hwords] at hunderway
  rw [hx]
  rcases hunderway.present hp with ⟨verdict, hstatus, hend⟩ | ⟨hopen, hon⟩
  · refine .inl ⟨verdict, hstatus, ?_⟩
    rw [Concluded, engine, Feeder.Stored.engine_resume]
    exact hend
  · obtain ⟨hfeeds'', hkeep⟩ := hfeeds'.resume hp hopen
    refine .inr ⟨hopen, rfl, rest', hfeeds'', ?_⟩
    rw [engine, Feeder.Stored.engine_resume, hkeep]
    exact hon

/-- A system whose next cycle is that of one which is underway. Before the request has been
acknowledged that is another system. -/
def Begun (C : Conclusion → Prop) (results : List ReadResult)
    (s : StoredSystem Bus.Memory) : Prop :=
  ∃ s' : StoredSystem Bus.Memory, s.cycle = s'.cycle ∧ Underway C results s'

/-- A processor that asks for a script begins a run of its words. -/
theorem begun_new {options : Options} {store : Store} {memory : Bus.Memory}
    {address : BitVec 16} {words : List Word} {bytes : List Byte}
    (hframed : Command.Framed words bytes) (hclosing : Command.Closing words)
    (hholds : store.Holds address words) :
    Begun ((Machine.initial options memory.atomic).Concludes options.stride bytes) []
      (new options store memory address) :=
  ⟨_, cycle_new options store memory address, rfl, words,
    ⟨hholds.finds, hclosing, rfl, hframed.ne_nil⟩, Engine.underway_new memory hframed⟩

/-- One cycle of a run ends it or leaves it underway. -/
theorem advances_cycle {C : Conclusion → Prop} (results : List ReadResult)
    (s : StoredSystem Bus.Memory) (h : Begun C results s) :
    Advances (Concluded C) (Begun C) results s.cycle := by
  obtain ⟨s', hx, hunderway⟩ := h
  rw [hx]
  rcases hunderway.cycle with hend | ⟨hopen, hon⟩
  · exact .inl hend
  · exact .inr ⟨hopen, _, rfl, hon⟩

end Run.StoredSystem

open Run

variable {options : Options} {memory : Bus.Memory} {summary : Summary}

/-- **A run of stored words reports what may become of the bytes in them**, whatever the latency
of the store. -/
theorem exists_concludes_of_runStored {store : Store} {address : BitVec 16} {words : List Word}
    {bytes : List Byte} (hframed : Command.Framed words bytes) (hclosing : Command.Closing words)
    (hholds : store.Holds address words)
    (h : (runStored options store memory address).1 = .ok summary) :
    ∃ c, (Machine.initial options memory.atomic).Concludes options.stride bytes c ∧
      summary.Reports (runStored options store memory address).2 c :=
  complete_reports StoredSystem.advances_cycle
    (StoredSystem.begun_new hframed hclosing hholds) h

/-- A script in an image runs as it is interpreted. -/
theorem runStored_reports_interpret {before placed image : Image} {label : String}
    {script : Script} {address latency : Nat}
    (hpush : before.push label script = .ok (address, placed)) (hgrows : placed.Grows image)
    (h : (runStored options (.ofWords image.words latency) memory
      (BitVec.ofNat 16 address)).1 = .ok summary) :
    summary.Reports
      (runStored options (.ofWords image.words latency) memory (BitVec.ofNat 16 address)).2
      (Machine.conclude (script.interpret options memory.atomic)) := by
  obtain ⟨c, hc, hreports⟩ := exists_concludes_of_runStored script.framed_words
    script.closing_words (hgrows.holds hpush latency) h
  rw [← Script.eq_conclude_interpret hc]
  exact hreports

/-- **The two front ends agree.** A script in an image, whatever stands before and behind it, and
the same script sent by a client report the same verdict, error, results and transactions and
leave the same memory, upcoming reads and log. The latency of the store, the pauses of the
client, the wait states and the two limits on cycles make no difference, as long as both runs
end. -/
theorem runStored_agrees_runScript {options options' : Options} {memory memory' : Bus.Memory}
    {before placed image : Image} {label : String} {script : Script}
    {address latency idleGap : Nat} {summary summary' : Summary}
    (hpush : before.push label script = .ok (address, placed)) (hgrows : placed.Grows image)
    (halike : options.Alike options') (hview : memory.atomic = memory'.atomic)
    (hstored : (runStored options (.ofWords image.words latency) memory
      (BitVec.ofNat 16 address)).1 = .ok summary)
    (hsent : (runScript options' memory' script idleGap).1 = .ok summary') :
    summary.Agrees summary' ∧
      (runStored options (.ofWords image.words latency) memory
        (BitVec.ofNat 16 address)).2.atomic =
        (runScript options' memory' script idleGap).2.atomic := by
  have hreports := runStored_reports_interpret hpush hgrows hstored
  obtain ⟨c, hc, hreports'⟩ := exists_concludes_of_runWords script.framed_words hsent
  have hsame : c = Machine.conclude (script.interpret options memory.atomic) := by
    rw [Script.eq_conclude_interpret hc, Script.interpret, Script.interpret,
      ← halike.initial_eq, ← halike.stride, hview]
  rw [hsame] at hreports'
  exact hreports.agrees hreports'

/-- The words of the sample as a section of an image. -/
def Image.Section.sample (label : String) : Image.Section :=
  ⟨label, #[⟨0x0010000000000000⟩, ⟨0x001e400300020101⟩, ⟨0x001e000e000d020c⟩,
    ⟨0x001e341204e4000f⟩, ⟨0x0024000008600482⟩]⟩

/-- The sample between two others in an image, run from a store with a latency of two cycles, and
the sample sent by a client. -/
theorem runStored_agrees_runScript_sample :
    Summary.Agrees
        ⟨.pollFailed, some (.pollExhausted 0x40000108 2), #[⟨.word, 0x12⟩], 36, 5⟩
        ⟨.pollFailed, some (.pollExhausted 0x40000108 2), #[⟨.word, 0x12⟩], 31, 5⟩ ∧
      (runStored {} (.ofWords (Image.mk #[.sample "a", .sample "b", .sample "c"]).words 2)
        Bus.Memory.sample 5).2.atomic =
        (runScript { maxCycles := 64 } Bus.Memory.sample Script.sample 1).2.atomic := by
  have hpush : (Image.mk #[.sample "a"]).push "b" Script.sample =
      .ok (5, ⟨#[.sample "a", .sample "b"]⟩) := by
    rw [Image.push, Script.words_sample]
    rfl
  have hgrows : (Image.mk #[.sample "a", .sample "b"]).Grows
      ⟨#[.sample "a", .sample "b", .sample "c"]⟩ := by
    have hagain : (Image.mk #[.sample "a", .sample "b"]).push "c" Script.sample =
        .ok (10, ⟨#[.sample "a", .sample "b", .sample "c"]⟩) := by
      rw [Image.push, Script.words_sample]
      rfl
    exact .push (.refl _) hagain
  refine runStored_agrees_runScript hpush hgrows ⟨rfl, rfl, rfl⟩ rfl ?_ ?_
  · rw [runStored, complete, drive_new]
    rfl
  · rw [runScript, Script.words_sample, runWords, complete, drive_new]
    rfl

end BusScript
