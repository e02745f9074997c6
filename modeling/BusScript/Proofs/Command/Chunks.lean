import BusScript.Proofs.Command.Decoding
import BusScript.Command.Framing
import Mathlib.Algebra.Order.Floor.Div

/-!
# The Commands of a Script

A script is sent as a start that clears the registers and data commands with its bytes, all of
which but the last are full. The last one is there for a script without bytes as well, and is
empty for no other.

## Main results

* `Command.chunked_frame` — how bytes are spread over data commands.
* `Script.length_words` — how many words a script takes.
* `Script.words_carry_bytes` — **the words of a script decode to its commands**, which carry its
  bytes in as few words as possible.
-/

namespace BusScript

namespace Command

/-- Data commands that carry `bytes`: full ones and a last one, which is empty only if there are no
bytes. -/
structure Chunked (commands : List Command) (full : List Payload) (last : Payload)
    (bytes : List Byte) : Prop where
  commands_eq : commands = full.map (.data · false) ++ [.data last true]
  length_full : ∀ p ∈ full, p.length = payloadCapacity
  bytes_eq : full.flatMap Payload.bytes ++ last.bytes = bytes
  last_eq_nil_iff : last.bytes = [] ↔ bytes = []

/-- **How bytes are spread over data commands.** -/
theorem chunked_frame (bytes : List Byte) : ∃ full last, Chunked (frame bytes) full last bytes := by
  induction bytes using frame_induction with
  | last bytes h =>
      rw [frame_of_length_le h]
      exact ⟨[], ⟨bytes, h⟩, rfl, List.forall_mem_nil _, rfl, Iff.rfl⟩
  | more bytes h ih =>
      obtain ⟨full, last, ih⟩ := ih
      have hlength : (Payload.take bytes).length = payloadCapacity := by
        rw [Payload.length, Payload.take, List.length_take]
        omega
      refine ⟨.take bytes :: full, last, ?_, ?_, ?_, ?_⟩
      · rw [frame_of_lt_length h, ih.commands_eq]
        rfl
      · rw [List.forall_mem_cons]
        exact ⟨hlength, ih.length_full⟩
      · rw [List.flatMap_cons, List.append_assoc, ih.bytes_eq]
        exact List.take_append_drop _ _
      · rw [ih.last_eq_nil_iff, List.drop_eq_nil_iff, ← List.length_eq_zero_iff]
        omega

namespace Chunked

variable {commands : List Command} {full : List Payload} {last : Payload} {bytes : List Byte}

/-- The payloads make up the bytes. -/
theorem flatMap_payloads (h : Chunked commands full last bytes) :
    (commands.filterMap Command.payload?).flatMap Payload.bytes = bytes := by
  have hpayloads : commands.filterMap Command.payload? = full ++ [last] := by
    rw [h.commands_eq, List.filterMap_append, List.filterMap_map]
    exact congrArg (· ++ [last]) List.filterMap_some
  rw [hpayloads, List.flatMap_append, List.flatMap_singleton, h.bytes_eq]

/-- The last command carries what the full ones do not. -/
theorem length_bytes (h : Chunked commands full last bytes) :
    bytes.length = payloadCapacity * full.length + last.length := by
  obtain ⟨-, hfull, rfl, -⟩ := h
  rw [List.length_append, Payload.length, Nat.add_left_inj]
  induction full with
  | nil => rfl
  | cons p full ih =>
      obtain ⟨hp, hrest⟩ := List.forall_mem_cons.mp hfull
      rw [List.flatMap_cons, List.length_append, List.length_cons, Nat.mul_succ, ih hrest,
        ← hp, Payload.length, Nat.add_comm]

/-- There are as many commands as the bytes need, and one if there are none. -/
theorem length_commands (h : Chunked commands full last bytes) :
    commands.length = max 1 (bytes.length ⌈/⌉ payloadCapacity) := by
  have hbytes := h.length_bytes
  have hle := last.length_le
  have hnil : last.length = 0 ↔ bytes.length = 0 := by
    rw [Payload.length, List.length_eq_zero_iff, List.length_eq_zero_iff, h.last_eq_nil_iff]
  rw [h.commands_eq, List.length_append, List.length_map, List.length_singleton,
    Nat.ceilDiv_eq_add_pred_div]
  rw [← Payload.length] at hle
  simp only [payloadCapacity] at hbytes hle ⊢
  omega

end Chunked

end Command

namespace Script

/-- Only the empty script has no bytes. -/
theorem bytes_eq_nil_iff (s : Script) : s.bytes = [] ↔ s.isEmpty = true := by
  rw [bytes, List.flatMap_eq_nil_iff, isEmpty, Array.isEmpty_iff, ← Array.toList_eq_nil_iff]
  constructor
  · intro h
    refine List.eq_nil_iff_forall_not_mem.mpr fun op hop => ?_
    cases h op hop
  · intro h op hop
    rw [h] at hop
    cases hop

/-- A script takes a word for its start, and one for every six bytes that it has begun. -/
theorem length_words (s : Script) :
    s.words.length = 1 + max 1 (s.bytes.length ⌈/⌉ Command.payloadCapacity) := by
  obtain ⟨full, last, h⟩ := Command.chunked_frame s.bytes
  rw [words, List.length_map, commands, List.length_cons, h.length_commands, Nat.add_comm]

/-- **The words of a script decode to its commands.** These are a start that clears the registers,
data commands of six bytes each, and one last data command. It is empty for the empty script and
has one to six bytes for any other. All payloads together are the bytes of the script, and there
are no more words than that takes. -/
theorem words_carry_bytes (s : Script) :
    s.words.map Command.Word.decode = s.commands.map .ok ∧
      (∃ (full : List Command.Payload) (last : Command.Payload),
        s.commands = .start true :: (full.map (.data · false) ++ [.data last true]) ∧
        (∀ p ∈ full, p.length = 6) ∧
        (last.length = 0 ↔ s.isEmpty = true) ∧
        (s.isEmpty = true ∨ 1 ≤ last.length ∧ last.length ≤ 6)) ∧
      (s.commands.filterMap Command.payload?).flatMap Command.Payload.bytes = s.bytes ∧
      s.words.length = 1 + max 1 (s.bytes.length ⌈/⌉ 6) := by
  obtain ⟨full, last, h⟩ := Command.chunked_frame s.bytes
  have hempty : last.length = 0 ↔ s.isEmpty = true := by
    rw [Command.Payload.length, List.length_eq_zero_iff, h.last_eq_nil_iff, bytes_eq_nil_iff]
  refine ⟨?_, ⟨full, last, ?_, h.length_full, hempty, ?_⟩, h.flatMap_payloads, s.length_words⟩
  · rw [words, List.map_map]
    exact List.map_congr_left fun c _ => Command.decode_pack c
  · rw [commands, h.commands_eq]
  · by_cases hs : s.isEmpty = true
    · exact .inl hs
    · have hpos : last.length ≠ 0 := fun hzero => hs (hempty.mp hzero)
      exact .inr ⟨Nat.one_le_iff_ne_zero.mpr hpos, last.length_le⟩

end Script

end BusScript
