import BusScript.Bus.Master
import BusScript.Bus.Target
import BusScript.Command.Word
import BusScript.Engine.Activity
import BusScript.Engine.Intake
import BusScript.Engine.Report

/-!
# The Engine

An `Engine` executes scripts that are presented to it one command word per cycle, and masters
the bus. A cycle has four parts, in this order:

1. `Engine.rest` — the end of a run that was reported in the cycle before is forgotten;
2. `Engine.settle` — the bus moves on, and a transaction that retires has its effect;
3. `Engine.accept` — the presented word is read and acted on;
4. `Engine.act` — the engine makes one decision: it reads a header, begins a transaction, waits,
   or ends the run.

The wires on the bus depend on the state before the cycle alone (`Engine.request`), so a cycle
is a function of the state, the word and the target's answer (`Engine.step`), and a target is
attached by asking it for that answer (`Engine.cycle`).

A run that fails while a transaction is outstanding is not over before that transaction is: the
engine is then **draining**, takes no words, and reports the failure when the transaction
retires.
-/

namespace BusScript

/-- What an engine is doing. -/
inductive Stage where
  /-- No script is running. -/
  | idle
  /-- The header of the next operation is awaited. -/
  | header
  /-- An operation is in progress. -/
  | executing (activity : Activity)
  /-- The last operation is done. -/
  | completing
  /-- The run has failed, and its last transaction is outstanding. -/
  | draining (verdict : Verdict)
  /-- The run has ended in this cycle. -/
  | ended (verdict : Verdict)
  deriving DecidableEq, Repr

/-- What the outside is told about a stage. -/
def Stage.status : Stage → Status
  | idle => .idle
  | header | executing _ | completing | draining _ => .running
  | ended verdict => .ended verdict

/-- An engine. -/
structure Engine where
  options : Options
  stage : Stage
  intake : Intake
  bus : Bus.Master
  registers : Registers
  /-- The failure of the last run that failed, until a clearing start. -/
  lastError : Option RunError
  deriving DecidableEq, Repr

namespace Engine

/-- An engine that has run nothing yet. -/
def new (options : Options) : Engine :=
  ⟨options, .idle, {}, {}, .initial options, none⟩

/-- The status reported in the last cycle. -/
def status (e : Engine) : Status := e.stage.status

/-- Whether no run is in progress and none ended in the last cycle. -/
def isIdle (e : Engine) : Bool := e.stage == .idle

/-- Whether the engine is only waiting for its last transaction. -/
def isDraining (e : Engine) : Bool :=
  match e.stage with
  | .draining _ => true
  | _ => false

/-- Whether a new command word can be put up: no transaction is outstanding. -/
def canAccept (e : Engine) : Bool := e.bus.isIdle && !e.isDraining

/-- The wires driven in this cycle. -/
def request (e : Engine) : Bus.Request := e.bus.request

/-- Ends the run. The verdict is reported at once if the bus is idle, and otherwise when the
outstanding transaction has retired.

A run that is draining keeps its verdict and its error, with no test for it here: `retire` ends
such a run with the verdict that it has, `accept` takes no word and `act` decides nothing. -/
def finish (e : Engine) (verdict : Verdict) (error : Option RunError) : Engine :=
  { e with
    lastError := error <|> e.lastError
    intake := e.intake.reset
    stage := if e.bus.isIdle then .ended verdict else .draining verdict }

/-- Ends the run with a failure. -/
def fail (e : Engine) (error : RunError) : Engine :=
  e.finish .errored (some error)

/-! ### The four parts of a cycle -/

/-- A run that ended in the cycle before is over. -/
def rest (e : Engine) : Engine :=
  { e with
    intake := e.intake.tick
    stage := match e.stage with
      | .ended _ => .idle
      | stage => stage }

/-- The stage of a transfer of which a transaction has retired. -/
def afterTransfer (activity : Activity) (t : Transfer) : Stage :=
  if t.remaining = 0 then .header else .executing activity

/-- The effect of a retired transaction, and the value to report. While draining the outcome
does not matter. -/
def retire (e : Engine) (t : Bus.Transaction) (outcome : Bus.Outcome) :
    Engine × Option ReadResult :=
  match e.stage, outcome with
  | .draining verdict, _ => ({ e with stage := .ended verdict }, none)
  | _, .fault => (e.fail (.busFault t.address t.isWrite), none)
  | .executing (.read r), .read value =>
    ({ e with stage := afterTransfer (.read r) r }, some ⟨r.width, value &&& r.width.mask⟩)
  | .executing (.write w), .written => ({ e with stage := afterTransfer (.write w) w }, none)
  | .executing (.poll p), .read value =>
    if p.isSatisfied value then ({ e with stage := .header }, none)
    else if p.budget ≤ p.attempts then
      (e.finish .pollFailed (some (.pollExhausted p.address p.attempts)), none)
    else
      let p := { p with delay := e.registers.pollDelay.toNat }
      ({ e with stage := .executing (.poll p) }, none)
  | _, _ => (e, none)

/-- The bus moves on by one cycle, in which the target answered `answer`. -/
def settle (e : Engine) (answer : Bus.Response) : Engine × Option ReadResult :=
  match e.bus.advance answer with
  | (bus, none) => ({ e with bus }, none)
  | (bus, some (t, outcome)) => { e with bus }.retire t outcome

/-- Acts on a command, and tells how many bytes of its payload were taken. -/
def obey (e : Engine) (command : Command) : Engine × Nat :=
  match command, e.stage with
  | .idle, _ => (e, 0)
  | .start clear, .idle =>
    let e := if clear then { e with registers := .initial e.options, lastError := none } else e
    ({ e with intake := e.intake.reset, stage := .header }, 0)
  | .start _, _ => (e.fail .unexpectedStart, 0)
  | .data _ _, .idle => (e.fail .notStarted, 0)
  | .data payload last, _ =>
    let (intake, count) := e.intake.take payload last
    ({ e with intake }, count)

/-- Reads the presented word and acts on it. An engine whose run is ending takes none. -/
def accept (e : Engine) (word : Command.Word) : Engine × Nat :=
  match e.stage with
  | .draining _ | .ended _ => (e, 0)
  | _ =>
    match word.decode with
    | .error error => (e.fail (.undecodable error), 0)
    | .ok command => e.obey command

/-- Reads the header of the next operation, once its two bytes are there. -/
def readHeader (e : Engine) : Engine :=
  if e.intake.closed && e.intake.queue.isEmpty then { e with stage := .completing }
  else
    match e.intake.pop? 2 with
    | some ([opcode, operand], intake) =>
      let e := { e with intake }
      match Header.decode opcode operand with
      | .error error => e.fail (.undecodable error)
      | .ok (.set target value) => { e with registers := e.registers.set target value }
      | .ok header =>
        match Activity.ofHeader? e.registers header with
        | none => e
        | some activity => { e with stage := .executing activity }
    | _ => if e.intake.closed then e.fail .incompleteOperation else e

/-- Begins a transaction and goes on with an activity. -/
def begin (e : Engine) (t : Bus.Transaction) (activity : Activity) : Engine :=
  { e with bus := e.bus.start t, stage := .executing activity }

/-- Moves an operation on by at most one transaction, if none is outstanding. Bytes that will
never come are noticed before that. -/
def execute (e : Engine) (activity : Activity) : Engine :=
  if e.intake.closed && e.intake.queue.length < activity.bytesNeeded then
    e.fail .incompleteOperation
  else if !e.bus.isIdle then e
  else
    match activity with
    | .read t =>
      if t.remaining = 0 then e
      else e.begin ⟨t.address, .read⟩ (.read (t.next e.options.stride))
    | .write t =>
      if t.remaining = 0 then e
      else
        match e.intake.popValue? t.width.bytes with
        | none => e
        | some (value, intake) =>
          { e with intake }.begin ⟨t.address, .write value⟩ (.write (t.next e.options.stride))
    | .poll p =>
      if 0 < p.delay then { e with stage := .executing (.poll { p with delay := p.delay - 1 }) }
      else e.begin ⟨p.address, .read⟩ (.poll { p with attempts := p.attempts + 1 })

/-- The one decision of a cycle. -/
def act (e : Engine) : Engine :=
  match e.stage with
  | .header => e.readHeader
  | .executing activity => e.execute activity
  | .completing => e.finish .completed none
  | .idle | .draining _ | .ended _ => e

/-! ### Cycles -/

/-- One cycle in which `word` was presented and the target answered `answer`. -/
def step (e : Engine) (word : Command.Word) (answer : Bus.Response) : Engine × Report :=
  let (e, result) := e.rest.settle answer
  let (e, consumed) := e.accept word
  let e := e.act
  (e, ⟨e.status, consumed, result⟩)

/-- One cycle against a target. -/
def cycle {τ : Type} [Bus.Target τ] (e : Engine) (target : τ) (word : Command.Word) :
    Engine × τ × Report :=
  let (answer, target) := Bus.Target.respond target e.request
  let (e, report) := e.step word answer
  (e, target, report)

end Engine

end BusScript
