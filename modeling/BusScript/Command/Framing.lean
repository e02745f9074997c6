import BusScript.Command.Word
import BusScript.Script.Basic

/-!
# Framing a Script into Commands

A script is sent to the engine as a start command that clears the registers, and then its
bytes, six to a command, the last of them marked. A script without bytes still has a last data
command, an empty one.

## Main results

* `frame_of_length_le`, `frame_of_lt_length` — the commands that carry given bytes, one at a
  time, and `frame_induction`, the induction that goes with them.
-/

namespace BusScript

namespace Command

/-- Appends to `done` the commands that carry `bytes`. -/
def frameOnto (done : Array Command) (bytes : List Byte) : Array Command :=
  match _ : bytes.drop payloadCapacity with
  | [] => done.push (.data (.take bytes) true)
  | b :: rest => frameOnto (done.push (.data (.take bytes) false)) (b :: rest)
termination_by bytes.length
decreasing_by
  rename_i h
  have hlen := congrArg List.length h
  simp only [List.length_drop, List.length_cons, payloadCapacity] at hlen ⊢
  omega

/-- The data commands that carry `bytes`. -/
def frame (bytes : List Byte) : List Command :=
  (frameOnto #[] bytes).toList

/-- Framing goes on from what is already done. -/
theorem toList_frameOnto (done : Array Command) (bytes : List Byte) :
    (frameOnto done bytes).toList = done.toList ++ frame bytes := by
  suffices h : ∀ done' : Array Command, (frameOnto (done ++ done') bytes).toList =
      done.toList ++ (frameOnto done' bytes).toList by
    simpa [frame] using h #[]
  intro done'
  fun_induction frameOnto done' bytes with
  | case1 done' bytes h => rw [frameOnto]; split <;> simp_all
  | case2 done' bytes b rest h ih => rw [frameOnto]; split <;> simp_all

/-- Bytes that fit into one command take one, the last. -/
theorem frame_of_length_le {bytes : List Byte} (h : bytes.length ≤ payloadCapacity) :
    frame bytes = [.data ⟨bytes, h⟩ true] := by
  have hdrop := List.drop_eq_nil_of_le h
  rw [frame, frameOnto]
  split
  · simp [Payload.take, List.take_of_length_le h]
  · simp_all

/-- Of more bytes, the first six take one command that is not the last. -/
theorem frame_of_lt_length {bytes : List Byte} (h : payloadCapacity < bytes.length) :
    frame bytes = .data (.take bytes) false :: frame (bytes.drop payloadCapacity) := by
  rw [frame, frameOnto]
  split
  · next hnil =>
    have := List.drop_eq_nil_iff.1 hnil
    omega
  · next hrest => rw [toList_frameOnto, hrest]; rfl

/-- **Induction over the commands that carry bytes**: the last one carries what fits into it, and
each of the others takes six bytes off the front. -/
@[elab_as_elim] theorem frame_induction {motive : List Byte → Prop}
    (last : ∀ bytes : List Byte, bytes.length ≤ payloadCapacity → motive bytes)
    (more : ∀ bytes : List Byte, payloadCapacity < bytes.length →
      motive (bytes.drop payloadCapacity) → motive bytes)
    (bytes : List Byte) : motive bytes := by
  induction hn : bytes.length using Nat.strongRecOn generalizing bytes with
  | ind n ih =>
      by_cases h : bytes.length ≤ payloadCapacity
      · exact last bytes h
      · have hlt : payloadCapacity < bytes.length := by omega
        have hpos : 0 < payloadCapacity := by decide
        have hshorter : (bytes.drop payloadCapacity).length < n := by
          rw [List.length_drop]
          omega
        exact more bytes hlt (ih _ hshorter _ rfl)

end Command

/-- The commands that send a script to the engine. -/
def Script.commands (s : Script) : List Command :=
  .start true :: Command.frame s.bytes

/-- The words that send a script to the engine. -/
def Script.words (s : Script) : List Command.Word :=
  s.commands.map Command.pack

end BusScript
