import BusScript.Command.Word

/-!
# Decoding Command Words

`Word.decode` reads the opcode field first and the payload only for the opcodes that have
one. `Word.decode_eq_ok_iff` says that once and for all commands, and everything else that is
known of decoded words is read off it: what `Command.pack` writes is read back, and a data
word whose first bytes have been shifted out is a data word with the other bytes.

## Main results

* `Word.decode_eq_ok_iff` — a word decodes to a command exactly when its opcode field holds
  the code of the command, and its payload field the payload, if there is one.
* `decode_pack` — a packed command decodes to itself.
* `Word.decode_consume` — consuming drops the first bytes of the payload and keeps the
  rest of the command, also in a word with something in its reserved bits.
* `Word.count_consume_eq_zero_iff` — nothing is left exactly when all bytes were consumed.
-/

namespace BusScript.Command

/-- The opcode field names an opcode by its code. -/
theorem Opcode.ofCode?_eq_ok_iff {bits : Byte} {o : Opcode} :
    Opcode.ofCode? bits = .ok o ↔ bits.toNat = o.code := by
  rw [Opcode.ofCode?]
  constructor
  · intro h
    split at h <;> cases h <;> assumption
  · intro h
    rw [h]
    cases o <;> rfl

/-- Every code fits into the opcode field. -/
theorem Opcode.code_lt (o : Opcode) : o.code < 8 := by
  cases o <;> decide

/-- The payload without its first `n` bytes. -/
def Payload.drop (p : Payload) (n : Nat) : Payload :=
  ⟨p.bytes.drop n, Nat.le_trans (by simp) p.length_le⟩

@[simp] theorem Payload.bytes_drop (p : Payload) (n : Nat) :
    (p.drop n).bytes = p.bytes.drop n := rfl

namespace Word

/-! ### What a word decodes to -/

/-- **Decoding, characterized.** The opcode field decides the kind of command, and for the
kinds that carry bytes the payload field decides which. -/
theorem decode_eq_ok_iff {w : Word} {c : Command} :
    w.decode = .ok c ↔
      w.opcode.toNat = c.opcode.code ∧ ∀ p, c.payload? = some p → w.payload? = .ok p := by
  have hwidth : (w.opcode.setWidth 8).toNat = w.opcode.toNat :=
    BitVec.toNat_setWidth_of_le (by omega)
  rw [← hwidth, ← Opcode.ofCode?_eq_ok_iff]
  constructor
  · intro h
    rw [decode] at h
    split at h
    · cases h
    · next hop =>
      cases h
      exact ⟨hop, by simp [Command.payload?]⟩
    · next hop =>
      cases h
      exact ⟨hop, by simp [Command.payload?]⟩
    · next hop =>
      cases h
      exact ⟨hop, by simp [Command.payload?]⟩
    all_goals
      next hop =>
      cases hp : w.payload? with
      | error e => simp [hp, Except.map] at h
      | ok p =>
          rw [hp] at h
          cases h
          exact ⟨hop, by simp [Command.payload?]⟩
  · rintro ⟨hop, hp⟩
    rw [decode, hop]
    match c with
    | .idle | .start false | .start true => rfl
    | .data p false | .data p true => simp [Command.opcode, hp p rfl, Except.map]

/-- A payload is the counted number of data bytes. -/
theorem payload?_eq_ok_iff {w : Word} {p : Payload} :
    w.payload? = .ok p ↔
      w.count.toNat ≤ payloadCapacity ∧ p.bytes = LittleEndian.toBytes w.count.toNat w.data := by
  rw [payload?]
  split
  · next h =>
    simp only [Except.ok.injEq, h, true_and]
    constructor
    · rintro rfl
      rfl
    · intro hp
      exact Payload.ext hp.symm
  · next h => simp [h]

/-- A word that decodes to a data command has as many bytes as its count field says. -/
theorem count_of_decode {w : Word} {p : Payload} {last : Bool}
    (h : w.decode = .ok (.data p last)) : w.count.toNat = p.length := by
  obtain ⟨-, hp⟩ := payload?_eq_ok_iff.mp ((decode_eq_ok_iff.mp h).2 p rfl)
  rw [Payload.length, hp, LittleEndian.length_toBytes]

/-- Whether a word carries bytes can be read off its command. -/
theorem isData_of_decode {w : Word} {c : Command} (h : w.decode = .ok c) :
    w.isData = c.opcode.isData := by
  have hop := (decode_eq_ok_iff.mp h).1
  rw [isData, hop]
  cases c.opcode <;> rfl

/-- Whether a word carries the last bytes of a script can be read off its command. -/
theorem isDataLast_of_decode {w : Word} {c : Command} (h : w.decode = .ok c) :
    w.isDataLast = (c.opcode == .dataLast) := by
  have hop := (decode_eq_ok_iff.mp h).1
  rw [isDataLast, hop]
  cases c.opcode <;> rfl

@[simp] theorem decode_idle : Word.idle.decode = .ok .idle := rfl

/-! ### Consuming bytes -/

/-- The lower bytes of a shifted value are the bytes above those shifted out. -/
theorem toBytes_shiftRight {w : Nat} (n k : Nat) (v : BitVec w) :
    LittleEndian.toBytes (n - k) (v >>> (8 * k)) = (LittleEndian.toBytes n v).drop k := by
  apply List.ext_getElem?
  intro i
  rw [List.getElem?_drop, LittleEndian.getElem?_toBytes, LittleEndian.getElem?_toBytes,
    ← BitVec.shiftRight_add, Nat.mul_add]
  by_cases h : k + i < n
  · rw [if_pos h, if_pos (by omega)]
  · rw [if_neg h, if_neg (by omega)]

/-- The count field after `n` bytes have been consumed. -/
theorem toNat_count_consume (w : Word) (n : Nat) :
    (w.consume n).count.toNat = w.count.toNat - n := by
  have hlt := w.count.isLt
  rw [consume, count_ofFields, BitVec.toNat_ofNat, Nat.mod_eq_of_lt (by omega)]

/-- **Consuming drops bytes.** The command keeps its kind and loses the first bytes of its
payload. -/
theorem decode_consume {w : Word} {p : Payload} {last : Bool} (h : w.decode = .ok (.data p last))
    (n : Nat) : (w.consume n).decode = .ok (.data (p.drop n) last) := by
  obtain ⟨hop, hp⟩ := decode_eq_ok_iff.mp h
  obtain ⟨hle, hbytes⟩ := payload?_eq_ok_iff.mp (hp p rfl)
  have hkeep : (w.consume n).opcode = w.opcode := opcode_ofFields _ _ _
  have hdata : (w.consume n).data = w.data >>> (8 * n) := data_ofFields _ _ _
  refine decode_eq_ok_iff.mpr ⟨?_, ?_⟩
  · rw [hkeep, hop]
    cases last <;> rfl
  · rintro q hq
    obtain rfl : p.drop n = q := by simpa [Command.payload?] using hq
    refine payload?_eq_ok_iff.mpr ⟨?_, ?_⟩
    · rw [toNat_count_consume]
      omega
    · rw [Payload.bytes_drop, hbytes, toNat_count_consume, hdata, toBytes_shiftRight]

/-- Nothing is left of a data word exactly when all its bytes have been consumed. -/
theorem count_consume_eq_zero_iff {w : Word} {p : Payload} {last : Bool}
    (h : w.decode = .ok (.data p last)) (n : Nat) :
    (w.consume n).count = 0 ↔ p.length ≤ n := by
  have hcount := toNat_count_consume w n
  rw [count_of_decode h] at hcount
  constructor
  · intro hz
    rw [hz] at hcount
    simp at hcount
    omega
  · intro hle
    apply BitVec.eq_of_toNat_eq
    rw [hcount]
    simp
    omega

/-- What is left of a word when `n` of its bytes have been taken: a data word with the bytes
still to take, if there are any, and nothing of any other word. -/
def leftover? (w : Word) (n : Nat) : Option Word :=
  if w.isData then if (w.consume n).count = 0 then none else some (w.consume n) else none

/-- Nothing is left of a word without bytes. -/
theorem leftover?_of_not_isData {w : Word} {c : Command} (h : w.decode = .ok c)
    (hc : c.opcode.isData = false) (n : Nat) : w.leftover? n = none := by
  rw [leftover?, isData_of_decode h, hc]
  rfl

/-- A data word is left as long as not all its bytes have been taken. -/
theorem leftover?_data {w : Word} {p : Payload} {last : Bool} (h : w.decode = .ok (.data p last))
    (n : Nat) : w.leftover? n = if p.length ≤ n then none else some (w.consume n) := by
  have hdata : w.isData = true := by
    rw [isData_of_decode h]
    cases last <;> rfl
  rw [leftover?, if_pos hdata]
  simp only [count_consume_eq_zero_iff h n]

end Word

/-! ### Packing -/

/-- The bytes that a command carries fit into the count field. -/
theorem length_bytes_le (c : Command) :
    (c.payload?.getD .empty).bytes.length ≤ payloadCapacity :=
  (c.payload?.getD .empty).length_le

/-- **A packed command decodes to itself.** -/
theorem decode_pack (c : Command) : c.pack.decode = .ok c := by
  have hlen := length_bytes_le c
  have hcode := c.opcode.code_lt
  simp only [payloadCapacity] at hlen
  have hcount : c.pack.count.toNat = (c.payload?.getD .empty).bytes.length := by
    rw [pack, Word.count_ofFields, BitVec.toNat_ofNat, Nat.mod_eq_of_lt (by omega)]
  have hdata : c.pack.data = LittleEndian.ofBytes 48 (c.payload?.getD .empty).bytes :=
    Word.data_ofFields _ _ _
  refine Word.decode_eq_ok_iff.mpr ⟨?_, ?_⟩
  · rw [pack, Word.opcode_ofFields, BitVec.toNat_ofNat, Nat.mod_eq_of_lt (by omega)]
  · intro p hp
    rw [hp, Option.getD_some] at hlen hcount hdata
    refine Word.payload?_eq_ok_iff.mpr ⟨?_, ?_⟩
    · rw [hcount]
      exact hlen
    · rw [hcount, hdata, LittleEndian.toBytes_ofBytes _ _ (by omega)]

end BusScript.Command
