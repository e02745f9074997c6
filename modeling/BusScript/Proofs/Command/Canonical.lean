import BusScript.Proofs.Command.Decoding
import Mathlib.Tactic.SplitIfs

/-!
# The Bits that Matter

Many words decode to the same command: the reserved bits may hold anything, and so may the data
bytes beyond the count, or the count and all data of a command without bytes. Of these words
`Command.pack` writes the one in which all such bits are clear.

## Main results

* `Word.getLsbD_pack_of_decode` — packing what a word decodes to keeps its bits that matter and
  clears the others.
* `Word.consume_consume` — bytes may be consumed in several goes.
* `Word.decodes_and_consumes` — **packing, decoding and consuming fit together**, for all words.
-/

namespace BusScript.Command

/-- The kinds of command that carry bytes are those with a payload. -/
theorem isData_opcode (c : Command) : c.opcode.isData = c.payload?.isSome := by
  rcases c with _ | clear | ⟨p, last⟩
  · rfl
  · cases clear <;> rfl
  · cases last <;> rfl

/-- A payload has no more bytes to drop than its own. -/
theorem Payload.drop_min (p : Payload) (n : Nat) : p.drop (min n p.length) = p.drop n := by
  apply Payload.ext
  rw [Payload.bytes_drop, Payload.bytes_drop]
  rcases Nat.le_total n p.length with hle | hle
  · rw [Nat.min_eq_left hle]
  · have hall : p.bytes.drop p.length = [] := List.drop_of_length_le (Nat.le_refl _)
    rw [Nat.min_eq_right hle, hall, List.drop_of_length_le hle]

namespace Word

/-- Whether decoding looks at a bit of a word: in a data word at the bytes that are counted and at
their count, in every word at the opcode, and nowhere at the reserved bits. -/
def matters (w : Word) (i : Nat) : Bool :=
  if i < 48 then w.isData && i < 8 * w.count.toNat
  else if i < 51 then w.isData else i < 54

/-- The bits of a word, field by field. -/
theorem getLsbD_ofFields (opcode count : BitVec 3) (data : BitVec 48) (i : Nat) :
    (ofFields opcode count data).raw.getLsbD i =
      if i < 48 then data.getLsbD i
      else if i < 51 then count.getLsbD (i - 48) else opcode.getLsbD (i - 51) := by
  simp only [ofFields, BitVec.getLsbD_append, BitVec.getLsbD_zero]
  by_cases hdata : i < 48
  · rw [if_pos hdata, if_pos hdata]
  · rw [if_neg hdata, if_neg hdata]
    by_cases hcount : i < 51
    · rw [if_pos hcount, if_pos (by omega)]
    · rw [if_neg hcount, if_neg (by omega), show i - 48 - 3 = i - 51 by omega]
      by_cases hopcode : i - 51 < 3
      · rw [if_pos hopcode]
      · rw [if_neg hopcode, BitVec.getLsbD_of_ge _ _ (by omega)]

/-- Put together again from its fields, a word has lost nothing but its reserved bits. -/
theorem getLsbD_raw (w : Word) {i : Nat} (h : i < 54) :
    w.raw.getLsbD i = (ofFields w.opcode w.count w.data).raw.getLsbD i := by
  rw [getLsbD_ofFields]
  simp only [data, count, opcode, BitVec.getLsbD_extractLsb']
  split_ifs with hdata hcount
  · simp [hdata]
  · simp [show i - 48 < 3 by omega, show 48 + (i - 48) = i by omega]
  · simp [show i - 51 < 3 by omega, show 51 + (i - 51) = i by omega]

/-- The fields of what a word decodes to: its opcode, and for a data word its count and the bytes
that it counts. -/
theorem pack_of_decode {w : Word} {c : Command} (h : w.decode = .ok c) :
    c.pack = if w.isData then
        ofFields w.opcode w.count ((w.data.setWidth (8 * w.count.toNat)).setWidth 48)
      else ofFields w.opcode 0 0 := by
  obtain ⟨hcode, hpayload⟩ := decode_eq_ok_iff.mp h
  have hopcode : BitVec.ofNat 3 c.opcode.code = w.opcode := by
    rw [← hcode, BitVec.ofNat_toNat, BitVec.setWidth_eq]
  rw [isData_of_decode h, isData_opcode, pack, hopcode]
  cases hp : c.payload? with
  | none => rfl
  | some p =>
      obtain ⟨-, hbytes⟩ := payload?_eq_ok_iff.mp (hpayload p hp)
      have hcount : BitVec.ofNat 3 p.bytes.length = w.count := by
        rw [hbytes, LittleEndian.length_toBytes, BitVec.ofNat_toNat, BitVec.setWidth_eq]
      rw [Option.getD_some, hcount, hbytes, LittleEndian.ofBytes_toBytes]
      rfl

/-- **Packing what a word decodes to** keeps the bits that matter and clears the others. -/
theorem getLsbD_pack_of_decode {w : Word} {c : Command} (h : w.decode = .ok c) (i : Nat) :
    c.pack.raw.getLsbD i = (w.raw.getLsbD i && w.matters i) := by
  rw [pack_of_decode h, matters]
  by_cases hi : i < 54
  · rw [w.getLsbD_raw hi]
    cases w.isData with
    | true =>
        rw [if_pos rfl, getLsbD_ofFields, getLsbD_ofFields]
        split_ifs with hdata hcount
        · simp [hdata, Bool.and_comm]
        · simp
        · simp [hi]
    | false =>
        rw [if_neg Bool.false_ne_true, getLsbD_ofFields, getLsbD_ofFields]
        split_ifs with hdata hcount
        · simp
        · simp
        · simp [hi]
  · -- a reserved bit
    have hopcode : w.opcode.getLsbD (i - 51) = false := BitVec.getLsbD_of_ge _ _ (by omega)
    have hdata : ¬ i < 48 := by omega
    have hcount : ¬ i < 51 := by omega
    cases w.isData <;> simp [getLsbD_ofFields, hdata, hcount, hi, hopcode]

/-- Bytes may be consumed in two goes. -/
theorem consume_consume (w : Word) (a b : Nat) : (w.consume a).consume b = w.consume (a + b) := by
  rw [consume, toNat_count_consume, consume, opcode_ofFields, data_ofFields, consume, Nat.sub_sub,
    ← BitVec.shiftRight_add, Nat.mul_add]

/-- **Packing, decoding and consuming fit together.** A packed command decodes to itself. What a
word decodes to is packed as that word with the bits cleared that do not matter. Consuming bytes of
a data word, whatever stands in its other bits, drops as many bytes of its payload, or all of them
if there are not so many. And bytes may be consumed in two goes, in every word. -/
theorem decodes_and_consumes :
    (∀ c : Command, c.pack.decode = .ok c) ∧
      (∀ (w : Word) (c : Command), w.decode = .ok c →
        ∀ i, c.pack.raw.getLsbD i = (w.raw.getLsbD i && w.matters i)) ∧
      (∀ (w : Word) (p : Payload) (last : Bool) (n : Nat), w.decode = .ok (.data p last) →
        (w.consume n).decode = .ok (.data (p.drop (min n p.length)) last)) ∧
      ∀ (w : Word) (a b : Nat), (w.consume a).consume b = w.consume (a + b) := by
  refine ⟨decode_pack, fun w c h => getLsbD_pack_of_decode h, ?_, consume_consume⟩
  intro w p last n h
  rw [Payload.drop_min]
  exact decode_consume h n

/-- A data word of two bytes with all reserved bits set and bytes beyond its count. -/
def littered : Word := ⟨0xffdaeeddccbb2211⟩

/-- The littered word decodes to its two bytes, which are packed without the litter. Of three bytes
that are consumed it has only two. -/
theorem decodes_and_consumes_littered :
    littered.decode = .ok (.data ⟨[0x11, 0x22], by decide⟩ false) ∧
      (∀ i, (Command.data ⟨[0x11, 0x22], by decide⟩ false).pack.raw.getLsbD i =
        (littered.raw.getLsbD i && littered.matters i)) ∧
      (Command.data ⟨[0x11, 0x22], by decide⟩ false).pack = ⟨0x001a000000002211⟩ ∧
      (littered.consume 1).decode = .ok (.data ⟨[0x22], by decide⟩ false) ∧
      (littered.consume 3).decode = .ok (.data .empty false) ∧
      (littered.consume 1).consume 2 = littered.consume 3 := by
  obtain ⟨-, hpack, hdecode, hconsume⟩ := decodes_and_consumes
  have h : littered.decode = .ok (.data ⟨[0x11, 0x22], by decide⟩ false) := rfl
  exact ⟨h, hpack _ _ h, by decide, hdecode _ _ _ 1 h, hdecode _ _ _ 3 h, hconsume _ 1 2⟩

end Word

end BusScript.Command
