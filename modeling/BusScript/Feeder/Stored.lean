import BusScript.Feeder.Presentation
import BusScript.Store

/-!
# Feeding from a Store

A `Stored` feeder runs scripts that lie in a `Store`, at the request of a processor. It fetches
words from successive 16-bit addresses, one at a time, each after the latency of the store, and
presents them. Fetching stops after the last data word of a script has been spent, or when a
run ends. Beyond the end of the store it finds `Store.sentinel`, which ends any run.
-/

namespace BusScript.Feeder

/-- Where a feeder stands with the next word. -/
inductive Fetch where
  /-- None is wanted. -/
  | stopped
  /-- It arrives after this many more cycles. -/
  | fetching (remaining : Nat)
  /-- It is being presented. -/
  | presenting
  deriving DecidableEq, Repr

/-- An engine fed from a store. -/
structure Stored where
  engine : Engine
  fetch : Fetch := .stopped
  /-- The address of the next word to fetch. -/
  pointer : BitVec 16 := 0
  held : Option Command.Word := none
  deriving DecidableEq, Repr

namespace Stored

/-- A feeder for a new engine. -/
def new (options : Options) : Stored := { engine := .new options }

/-- Whether words are being fetched or a run is in progress. -/
def isBusy (s : Stored) : Bool := s.fetch != .stopped || !s.engine.isIdle

/-- Whether a request made in this cycle is taken. -/
def isOpen (s : Stored) : Bool := s.fetch == .stopped && s.engine.isIdle

/-- Begins to fetch from an address. -/
def begin (s : Stored) (store : Store) (address : BitVec 16) : Stored :=
  { s with pointer := address, fetch := .fetching store.latency }

/-- Waits for the word being fetched, and holds it when it arrives. -/
def awaitWord (s : Stored) (store : Store) : Stored :=
  match s.fetch with
  | .fetching (remaining + 1) => { s with fetch := .fetching remaining }
  | .fetching 0 =>
    { s with
      held := some ((store.fetch s.pointer).getD Store.sentinel)
      pointer := s.pointer + 1
      fetch := .presenting }
  | _ => s

/-- What the feeder does after a presentation: it stops with the run or its last word, and
otherwise fetches the word after a spent one. -/
def resume (s : Stored) (store : Store) (p : Presentation) : Stored :=
  if p.report.status.isTerminal then
    { s with engine := p.engine, held := none, fetch := .stopped }
  else
    let fetch := match p.spent with
      | none => s.fetch
      | some word => if word.isDataLast then .stopped else .fetching store.latency
    { s with engine := p.engine, held := p.held, fetch }

/-- One cycle in which the processor asked for the script at `request`, if for any, and the
target answered `answer`; the flag is the acknowledgement. -/
def step (s : Stored) (store : Store) (request : Option (BitVec 16)) (answer : Bus.Response) :
    Stored × Bool × Report :=
  let (s, acknowledged) := match request with
    | some address => if s.isOpen then (s.begin store address, true) else (s, false)
    | none => (s, false)
  let s := s.awaitWord store
  let p := present s.engine s.held answer
  (s.resume store p, acknowledged, p.report)

/-- One cycle against a target. -/
def cycle {τ : Type} [Bus.Target τ] (s : Stored) (store : Store) (target : τ)
    (request : Option (BitVec 16)) : Stored × τ × Bool × Report :=
  let (answer, target) := Bus.Target.respond target s.engine.request
  let (s, acknowledged, report) := s.step store request answer
  (s, target, acknowledged, report)

end Stored

end BusScript.Feeder
