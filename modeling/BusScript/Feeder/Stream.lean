import BusScript.Feeder.Presentation

/-!
# Feeding from a Stream

A `Stream` feeder is offered command words by a client. It acknowledges an offer when it holds
no word and the engine can accept one, and presents the word in that same cycle.
-/

namespace BusScript.Feeder

/-- An engine fed by a client that offers words. -/
structure Stream where
  engine : Engine
  held : Option Command.Word := none
  deriving DecidableEq, Repr

namespace Stream

/-- A feeder for a new engine. -/
def new (options : Options) : Stream := { engine := .new options }

/-- Whether a word is held or a run is in progress. -/
def isBusy (s : Stream) : Bool := s.held.isSome || !s.engine.isIdle

/-- Whether an offer made in this cycle is taken. -/
def isOpen (s : Stream) : Bool := s.held.isNone && s.engine.canAccept

/-- One cycle in which the client offered `offer` and the target answered `answer`; the flag is
the acknowledgement. -/
def step (s : Stream) (offer : Option Command.Word) (answer : Bus.Response) :
    Stream × Bool × Report :=
  let acknowledged := offer.isSome && s.isOpen
  let p := present s.engine (if acknowledged then offer else s.held) answer
  (⟨p.engine, p.held⟩, acknowledged, p.report)

/-- One cycle against a target. -/
def cycle {τ : Type} [Bus.Target τ] (s : Stream) (target : τ) (offer : Option Command.Word) :
    Stream × τ × Bool × Report :=
  let (answer, target) := Bus.Target.respond target s.engine.request
  let (s, acknowledged, report) := s.step offer answer
  (s, target, acknowledged, report)

end Stream

end BusScript.Feeder
