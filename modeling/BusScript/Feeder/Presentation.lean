import BusScript.Engine.Basic

/-!
# Presenting a Held Word

A feeder holds at most one command word and presents it to the engine in every cycle until the
engine is done with it: a word with script bytes until they have all been taken, any other word
exactly once. Whatever is held is dropped when a run ends.
-/

namespace BusScript.Feeder

/-- One cycle in which a feeder presented what it holds. -/
structure Presentation where
  /-- The engine after the cycle. -/
  engine : Engine
  /-- What the engine reported. -/
  report : Report
  /-- What is still held. -/
  held : Option Command.Word
  /-- The word that the engine was done with in this cycle, as it was presented. -/
  spent : Option Command.Word
  deriving DecidableEq, Repr

/-- What is left of a held word after a report: nothing, or a word with bytes still to take. -/
def remainder? (word : Command.Word) (report : Report) : Option Command.Word :=
  if report.status.isTerminal || !word.isData then none
  else
    let word := word.consume report.consumed
    if word.count = 0 then none else some word

/-- Presents the held word, or an idle one if none is held. -/
def present (e : Engine) (held : Option Command.Word) (answer : Bus.Response) : Presentation :=
  let (engine, report) := e.step (held.getD .idle) answer
  match held with
  | none => ⟨engine, report, none, none⟩
  | some word =>
    match remainder? word report with
    | none => ⟨engine, report, none, some word⟩
    | some rest => ⟨engine, report, some rest, none⟩

end BusScript.Feeder
