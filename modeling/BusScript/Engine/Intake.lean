import BusScript.Command.Payload

/-!
# The Intake Queue

The bytes of a script pass through a short queue on their way from the command words to the
engine. Its input side moves at most three bytes in a cycle and then **rests** for one, which
the flags `pulsed` (bytes were moved in this cycle) and `resting` (they were in the one before)
record; its output side takes bytes as the engine needs them. The input is **closed** once the
last byte of a script has been taken.

## Main results

* `Intake.length_take_le` — the queue never grows beyond its capacity.
-/

namespace BusScript

/-- The queue between the command words and the engine. -/
structure Intake where
  /-- The bytes taken and not yet used, oldest first. -/
  queue : List Byte := []
  /-- Whether the last byte of the script has been taken. -/
  closed : Bool := false
  /-- Whether bytes were taken in this cycle. -/
  pulsed : Bool := false
  /-- Whether bytes were taken in the cycle before. -/
  resting : Bool := false
  deriving DecidableEq, Repr

namespace Intake

/-- The most bytes that the queue holds. -/
def capacity : Nat := 8

/-- The most bytes that are taken in one cycle. -/
def lanes : Nat := 3

/-- The beginning of a cycle. -/
def tick (i : Intake) : Intake :=
  { i with resting := i.pulsed, pulsed := false }

/-- Drops the queue and opens the input, for a new script. A rest that is due stays due. -/
def reset (i : Intake) : Intake :=
  { i with queue := [], closed := false }

/-- Offers a payload, and tells how many of its bytes were taken. Nothing is taken from a
closed input, nor in the two cycles of a pulse and its rest; an empty payload only closes the
input, if it is the last one. The input closes when the last payload has been taken whole. -/
def take (i : Intake) (p : Command.Payload) (last : Bool) : Intake × Nat :=
  if i.closed then (i, 0)
  else if p.bytes.isEmpty then ({ i with closed := last }, 0)
  else if i.resting || i.pulsed then (i, 0)
  else
    let count := min p.length (min lanes (capacity - i.queue.length))
    if count = 0 then (i, 0)
    else
      ({ i with
          queue := i.queue ++ p.bytes.take count
          closed := last && count == p.length
          pulsed := true }, count)

/-- Takes exactly `n` bytes out of the queue, if it holds as many. -/
def pop? (i : Intake) (n : Nat) : Option (List Byte × Intake) :=
  if n ≤ i.queue.length then some (i.queue.take n, { i with queue := i.queue.drop n })
  else none

/-- Takes a little-endian value of `width` bytes out of the queue. No value has more than four
bytes. -/
def popValue? (i : Intake) (width : Nat) : Option (Value × Intake) :=
  if width ≤ 4 then (i.pop? width).map fun (bytes, i) => (LittleEndian.ofBytes 32 bytes, i)
  else none

/-- The queue never grows beyond its capacity. -/
theorem length_take_le (i : Intake) (p : Command.Payload) (last : Bool)
    (h : i.queue.length ≤ capacity) : (i.take p last).1.queue.length ≤ capacity := by
  unfold take
  dsimp only
  repeat' split
  case isFalse.isFalse.isFalse.isFalse =>
    simp only [List.length_append, List.length_take, Command.Payload.length]
    omega
  all_goals exact h

end Intake

end BusScript
