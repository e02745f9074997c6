import BusScript.DecodeError
import BusScript.Script.Width

/-!
# What an Engine Reports

In every cycle an engine reports its `Status`, how many payload bytes it took, and the value
of a read that ended in that cycle. A run ends with a `Verdict`, and a run that ends badly
leaves a `RunError` behind.
-/

namespace BusScript

/-- How a run ended. -/
inductive Verdict where
  | completed
  | pollFailed
  | errored
  deriving DecidableEq, Repr

/-- What an engine is doing, as seen from outside. -/
inductive Status where
  | idle
  | running
  /-- Reported for the one cycle in which a run ends. -/
  | ended (verdict : Verdict)
  deriving DecidableEq, Repr

/-- Whether a run ends in the cycle that reports this status. -/
def Status.isTerminal : Status → Bool
  | ended _ => true
  | _ => false

/-- The text of a verdict. -/
def Verdict.text : Verdict → String
  | completed => "completed"
  | pollFailed => "poll failed"
  | errored => "errored"

/-- The text of a status. -/
def Status.text : Status → String
  | idle => "idle"
  | running => "running"
  | ended verdict => verdict.text

/-- Why a run failed. -/
inductive RunError where
  /-- A command word or an operation header cannot be read. -/
  | undecodable (error : DecodeError)
  /-- The last bytes of the script leave an operation incomplete. -/
  | incompleteOperation
  /-- Script bytes came while no script was running. -/
  | notStarted
  /-- A start came while a script was running. -/
  | unexpectedStart
  /-- A target answered a transaction with an error. -/
  | busFault (address : Address) (write : Bool)
  /-- A poll used up its attempts. -/
  | pollExhausted (address : Address) (attempts : Nat)
  deriving DecidableEq, Repr

/-- The wording of a failure. -/
def RunError.message : RunError → String
  | undecodable error => error.message
  | incompleteOperation => "input ended while an operation still required operand bytes"
  | notStarted => "operand bytes were presented before a start command"
  | unexpectedStart => "start command presented while a script was running"
  | busFault address write =>
    "bus fault on " ++ (if write then "write" else "read") ++ " of address 0x"
      ++ Hex.text 8 address.toNat
  | pollExhausted address attempts =>
    "poll of address 0x" ++ Hex.text 8 address.toNat ++ " gave up after "
      ++ toString attempts ++ " attempts"

/-- A value read by a script. -/
structure ReadResult where
  width : Width
  value : Value
  deriving DecidableEq, Repr

/-- The text of a read value: at least as many digits as its width has. -/
def ReadResult.text (r : ReadResult) : String :=
  "0x" ++ Hex.textAtLeast (2 * r.width.bytes) r.value.toNat

/-- What an engine reports in one cycle. -/
structure Report where
  status : Status
  /-- How many bytes of the presented word were taken. -/
  consumed : Nat
  /-- The value of a read that ended in this cycle. -/
  result : Option ReadResult
  deriving DecidableEq, Repr

/-- The width code beside the reported value, zero if there is none. -/
def Report.widthCode (r : Report) : Nat :=
  match r.result with
  | none => 0
  | some result => result.width.reportCode

end BusScript
