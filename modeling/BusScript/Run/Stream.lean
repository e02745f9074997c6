import BusScript.Command.Framing
import BusScript.Feeder.Stream
import BusScript.Run.Basic

/-!
# Running a List of Words

A client offers a list of command words to a stream feeder, in order, and pauses for
`idleGap` cycles after each acknowledgement. `runWords` runs such a system, `runScript` the one
that sends a script.
-/

namespace BusScript

namespace Run

/-- A stream feeder, its client and a target. -/
structure StreamSystem (τ : Type) where
  feeder : Feeder.Stream
  target : τ
  /-- The words that have not been acknowledged. -/
  pending : List Command.Word
  /-- The cycles until the next offer. -/
  gap : Nat
  /-- The pause after an acknowledgement. -/
  idleGap : Nat

namespace StreamSystem

/-- A new feeder whose client has all words still to offer. -/
def new {τ : Type} (options : Options) (target : τ) (words : List Command.Word)
    (idleGap : Nat) : StreamSystem τ :=
  ⟨.new options, target, words, 0, idleGap⟩

/-- The engine in the system. -/
def engine {τ : Type} (s : StreamSystem τ) : Engine := s.feeder.engine

/-- The word offered in this cycle. -/
def offer {τ : Type} (s : StreamSystem τ) : Option Command.Word :=
  if s.gap = 0 then s.pending.head? else none

/-- One cycle. -/
def cycle {τ : Type} [Bus.Target τ] (s : StreamSystem τ) : StreamSystem τ × Report :=
  let offer := s.offer
  let ⟨feeder, target, pending, gap, idleGap⟩ := s
  let (feeder, target, acknowledged, report) := feeder.cycle target offer
  if acknowledged then (⟨feeder, target, pending.tail, idleGap, idleGap⟩, report)
  else (⟨feeder, target, pending, gap - 1, idleGap⟩, report)

end StreamSystem

end Run

/-- Offers words to a new engine until the run they begin has ended. -/
def runWords {τ : Type} [Bus.Target τ] (options : Options) (target : τ)
    (words : List Command.Word) (idleGap : Nat) : Except Run.LimitError Run.Summary × τ :=
  let (result, system) := Run.complete Run.StreamSystem.cycle Run.StreamSystem.engine
    (.new options target words idleGap)
  (result, system.target)

/-- Sends a script to a new engine and runs it. -/
def runScript {τ : Type} [Bus.Target τ] (options : Options) (target : τ) (script : Script)
    (idleGap : Nat) : Except Run.LimitError Run.Summary × τ :=
  runWords options target script.words idleGap

end BusScript
