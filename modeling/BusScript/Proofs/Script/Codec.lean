import BusScript.Script.Reading

/-!
# Writing and Reading Operations

An operation is written as its header and its data bytes (`Op.bytes`), and bytes are read as
operations by `Op.readAll`. This module shows that reading undoes writing for the operations
that scripts are made of, up to the bits of written values that their width cuts off, that
nothing but such operations is ever read, and that they are written as they were read.

## Main results

* `Header.decode_encode` — the header of a valid operation is read back.
* `Header.encode_of_decode` — a header is written as it was read.
* `Op.valid_ofHeader` — an operation that is read is valid.
* `Op.readAll?_induction` — bytes that are complete operations, one operation at a time.
* `Op.readAll?_bytes_append`, `Script.readAll?_bytes` — **reading undoes writing**, for one
  operation in front of others and for a whole script.
* `Op.bytes_of_readAll?` — **writing undoes reading**, for bytes that are complete operations.
-/

namespace BusScript

/-! ### Values of a width -/

namespace Width

/-- Masking a value keeps the bits that its width has. -/
theorem and_mask (w : Width) (v : Value) : v &&& w.mask = (v.setWidth w.bits).setWidth 32 := by
  apply BitVec.eq_of_getLsbD_eq
  intro i hi
  by_cases h : i < w.bits <;> simp [mask, hi, h]

/-- A value made of no more bytes than its width has is left alone by the mask. -/
theorem and_mask_ofBytes (w : Width) {bytes : List Byte} (h : bytes.length ≤ w.bytes) :
    LittleEndian.ofBytes 32 bytes &&& w.mask = LittleEndian.ofBytes 32 bytes := by
  apply BitVec.eq_of_getLsbD_eq
  intro i hi
  rw [and_mask, BitVec.getLsbD_setWidth, BitVec.getLsbD_setWidth, LittleEndian.getLsbD_ofBytes]
  by_cases hb : i < w.bits
  · simp [hb, hi]
  · have hnone : bytes[i / 8]? = none := List.getElem?_eq_none (by unfold bits at hb; omega)
    simp [hnone]

end Width

namespace Op

@[simp] theorem length_values (width count : Nat) (bytes : List Byte) :
    (values width count bytes).length = count := by
  induction count generalizing bytes with
  | zero => rfl
  | succ count ih => simp [values, ih]

/-- Values are cut from the front: what stands behind their bytes does not matter. -/
theorem values_append {width count : Nat} {bytes : List Byte}
    (h : count * width ≤ bytes.length) (rest : List Byte) :
    values width count (bytes ++ rest) = values width count bytes := by
  induction count generalizing bytes with
  | zero => rfl
  | succ count ih =>
      rw [Nat.succ_mul] at h
      have hle : width ≤ bytes.length := by omega
      rw [values, values, List.take_append_of_le_length hle, List.drop_append_of_le_length hle,
        ih (by simp; omega)]

/-- Values are cut from the front: bytes beyond them may be dropped. -/
theorem values_take (width count : Nat) (bytes : List Byte) (h : count * width ≤ bytes.length) :
    values width count (bytes.take (count * width)) = values width count bytes := by
  conv => rhs; rw [← List.take_append_drop (count * width) bytes]
  rw [values_append (by simp; omega)]

/-- Written values are read back cut to their width. -/
theorem values_flatMap (width : Width) (data : List Value) :
    values width.bytes data.length (data.flatMap (LittleEndian.toBytes width.bytes)) =
      data.map (· &&& width.mask) := by
  induction data with
  | nil => rfl
  | cons v data ih =>
      have hlen : (LittleEndian.toBytes width.bytes v).length = width.bytes := by simp
      rw [List.length_cons, values, List.flatMap_cons, List.take_left' hlen, List.drop_left' hlen,
        ih, LittleEndian.ofBytes_toBytes, List.map_cons, Width.and_mask, Width.bits]

/-- Read values already fit their width. -/
theorem map_and_mask_values (width : Width) (count : Nat) (bytes : List Byte) :
    (values width.bytes count bytes).map (· &&& width.mask) = values width.bytes count bytes := by
  induction count generalizing bytes with
  | zero => rfl
  | succ count ih =>
      rw [values, List.map_cons, ih, Width.and_mask_ofBytes _ (List.length_take_le _ _)]

/-- Values that were cut from bytes are written as these bytes. -/
theorem flatMap_values (width : Width) {count : Nat} {bytes : List Byte}
    (h : bytes.length = count * width.bytes) :
    (values width.bytes count bytes).flatMap (LittleEndian.toBytes width.bytes) = bytes := by
  induction count generalizing bytes with
  | zero =>
      rw [Nat.zero_mul] at h
      rw [List.eq_nil_of_length_eq_zero h]
      rfl
  | succ count ih =>
      rw [Nat.succ_mul] at h
      have hfirst : (bytes.take width.bytes).length = width.bytes := by
        rw [List.length_take]
        omega
      have hfits := width.bytes_le_four
      have hback := LittleEndian.toBytes_ofBytes 32 (bytes.take width.bytes) (by omega)
      rw [hfirst] at hback
      rw [values, List.flatMap_cons, hback, ih (by rw [List.length_drop]; omega),
        List.take_append_drop]

/-- A valid transfer moves between one value and the most that fit its field. -/
theorem countFlaw?_eq_none_iff {count : Nat} :
    countFlaw? count = none ↔ 1 ≤ count ∧ count ≤ maxCount := by
  simp [countFlaw?]

/-- A byte holds the number of values of a valid write. -/
theorem length_mod_of_valid {address : Byte} {width : Width} {data : List Value}
    {increment : Bool} (h : (write address width data increment).Valid) :
    data.length % 256 = data.length := by
  have hcount := countFlaw?_eq_none_iff.mp h
  have hbyte : maxCount < 256 := by decide
  exact Nat.mod_eq_of_lt (by omega)

end Op

/-! ### Headers -/

/-- Codes name a register byte only if they are that byte's codes. -/
theorem RegisterByte.codes_of_ofCodes? {register index : Nat} {target : RegisterByte}
    (h : ofCodes? register index = some target) :
    target.register.code = register ∧ target.index = index := by
  rw [ofCodes?] at h
  split at h
  · cases h
  · next r hr =>
    split at h
    · cases h
    · obtain rfl := Option.some.inj h
      exact ⟨Register.code_of_ofCode? hr, rfl⟩

namespace Header

/-- Only a malformed opcode byte keeps a header from being read. -/
theorem eq_malformedHeader_of_decode {opcode operand : Byte} {e : DecodeError}
    (h : decode opcode operand = .error e) : e = .malformedHeader opcode := by
  rw [decode] at h
  dsimp only at h
  split at h <;> (try split at h) <;> cases h <;> rfl

/-- The fields of the opcode byte of a transfer. -/
theorem transferFields_fields (c : BitVec 2) (width : Width) {count : Nat} (increment : Bool)
    (h : 1 ≤ count ∧ count ≤ Op.maxCount) :
    let opcode : Byte := c ++ transferFields width count increment
    opcode.extractLsb' 6 2 = c ∧ (opcode.extractLsb' 0 2).toNat = width.code ∧
      (opcode.extractLsb' 2 3).toNat + 1 = count ∧ opcode.getLsbD 5 = increment := by
  have hall : ∀ (c : BitVec 2) (n : Fin 8) (b : Bool), ∀ w ∈ [Width.byte, .half, .word],
      let opcode : Byte := c ++ transferFields w (n + 1) b
      opcode.extractLsb' 6 2 = c ∧ (opcode.extractLsb' 0 2).toNat = w.code ∧
        (opcode.extractLsb' 2 3).toNat + 1 = n + 1 ∧ opcode.getLsbD 5 = b := by
    decide
  obtain ⟨hpos, hle⟩ := h
  obtain ⟨n, rfl⟩ : ∃ n, count = n + 1 := ⟨count - 1, by omega⟩
  exact hall c ⟨n, Nat.lt_of_succ_le hle⟩ increment width (by cases width <;> simp)

/-- **The header of a valid operation is read back.** -/
theorem decode_encode {op : Op} (h : op.Valid) :
    decode op.header.encode.1 op.header.encode.2 = .ok op.header := by
  cases op with
  | set target value =>
      have hall : ∀ (r : Fin 16) (i : Fin 4),
          let opcode : Byte := 0#2 ++ BitVec.ofNat 4 r ++ BitVec.ofNat 2 i
          (opcode.extractLsb' 6 2).toNat = 0 ∧ (opcode.extractLsb' 2 4).toNat = r ∧
            (opcode.extractLsb' 0 2).toNat = i := by
        decide
      obtain ⟨r, i⟩ := target
      have hi : i < 4 := by
        cases r <;> simp [Op.Valid, Op.flaw?] at h <;> omega
      have hne : ¬ (r = .address ∧ i = 0) := by
        rintro ⟨rfl, rfl⟩
        simp [Op.Valid, Op.flaw?] at h
      obtain ⟨hclass, hregister, hindex⟩ := hall ⟨r.code, by cases r <;> decide⟩ ⟨i, hi⟩
      simp only [Op.header, encode, decode, hclass, hregister, hindex, RegisterByte.ofCodes?,
        Register.ofCode?_code]
      rw [if_neg hne]
  | poll address bit untilSet =>
      have hall : ∀ (b : Fin 32) (u : Bool),
          let opcode : Byte := 1#2 ++ BitVec.ofBool u ++ BitVec.ofNat 5 b
          (opcode.extractLsb' 6 2).toNat = 1 ∧ (opcode.extractLsb' 0 5).toNat = b ∧
            opcode.getLsbD 5 = u := by
        decide
      have hbit : bit < 32 := by simpa [Op.Valid, Op.flaw?] using h
      obtain ⟨hclass, hb, hflag⟩ := hall ⟨bit, hbit⟩ untilSet
      simp only [Op.header, encode, decode, hclass, hb, hflag]
  | read address width count increment =>
      obtain ⟨hclass, hwidth, hcount, hflag⟩ :=
        transferFields_fields 2#2 width increment (Op.countFlaw?_eq_none_iff.mp h)
      simp only [Op.header, encode, decode, hclass, hwidth, hcount, hflag, Width.ofCode?_code]
      rfl
  | write address width data increment =>
      obtain ⟨hclass, hwidth, hcount, hflag⟩ :=
        transferFields_fields 3#2 width increment (Op.countFlaw?_eq_none_iff.mp h)
      simp only [Op.header, Op.length_mod_of_valid h, encode, decode, hclass, hwidth, hcount, hflag,
        Width.ofCode?_code]
      rfl

/-- An opcode byte is put together again from its class and the fields of a set operation. -/
theorem opcode_of_setFields (opcode : Byte) :
    opcode.extractLsb' 6 2 ++ opcode.extractLsb' 2 4 ++ opcode.extractLsb' 0 2 = opcode := by
  revert opcode
  decide

/-- The same for a poll. -/
theorem opcode_of_pollFields (opcode : Byte) :
    opcode.extractLsb' 6 2 ++ BitVec.ofBool (opcode.getLsbD 5) ++ opcode.extractLsb' 0 5 =
      opcode := by
  revert opcode
  decide

/-- The same for a transfer, whose width is what the lowest field is the code of. -/
theorem opcode_of_transferFields (opcode : Byte) {width : Width}
    (h : width.code = (opcode.extractLsb' 0 2).toNat) :
    opcode.extractLsb' 6 2 ++
      transferFields width ((opcode.extractLsb' 2 3).toNat + 1) (opcode.getLsbD 5) = opcode := by
  have hall : ∀ opcode : Byte, opcode.extractLsb' 6 2 ++ (BitVec.ofBool (opcode.getLsbD 5) ++
      BitVec.ofNat 3 ((opcode.extractLsb' 2 3).toNat + 1 + 7) ++
        BitVec.ofNat 2 (opcode.extractLsb' 0 2).toNat) = opcode := by
    decide
  rw [transferFields, h]
  exact hall opcode

/-- **A header is written as it was read**: no two pairs of bytes are the same header. -/
theorem encode_of_decode {opcode operand : Byte} {header : Header}
    (h : decode opcode operand = .ok header) : header.encode = (opcode, operand) := by
  have hclass {n : Nat} (hn : (opcode.extractLsb' 6 2).toNat = n) :
      BitVec.ofNat 2 n = opcode.extractLsb' 6 2 := by
    rw [← hn, BitVec.ofNat_toNat, BitVec.setWidth_eq]
  rw [decode] at h
  dsimp only at h
  split at h
  · -- a register byte
    next hset =>
    split at h
    · cases h
    · next target ht =>
      cases h
      obtain ⟨hregister, hindex⟩ := RegisterByte.codes_of_ofCodes? ht
      rw [encode, hregister, hindex, hclass hset, BitVec.ofNat_toNat, BitVec.ofNat_toNat,
        BitVec.setWidth_eq, BitVec.setWidth_eq, opcode_of_setFields]
  · -- a poll
    next hpoll =>
    cases h
    rw [encode, hclass hpoll, BitVec.ofNat_toNat, BitVec.setWidth_eq, opcode_of_pollFields]
  · -- a read
    next hread =>
    split at h
    · cases h
    · next width hwidth =>
      cases h
      rw [encode, hclass hread, opcode_of_transferFields opcode (Width.code_of_ofCode? hwidth)]
  · -- a write
    next hne₀ hne₁ hne₂ =>
    split at h
    · cases h
    · next width hwidth =>
      cases h
      have hlt := (opcode.extractLsb' 6 2).isLt
      rw [imp_false] at hne₀ hne₁ hne₂
      have hwrite : (opcode.extractLsb' 6 2).toNat = 3 := by omega
      rw [encode, hclass hwrite, opcode_of_transferFields opcode (Width.code_of_ofCode? hwidth)]

end Header

namespace Op

/-- **An operation that is read is valid**: the fields of a header hold nothing else. -/
theorem valid_ofHeader {opcode operand : Byte} {header : Header}
    (h : Header.decode opcode operand = .ok header) (payload : List Byte) :
    (ofHeader header payload).Valid := by
  rw [Header.decode] at h
  dsimp only at h
  split at h
  · -- a register byte
    split at h
    · cases h
    · next target ht =>
      cases h
      rw [RegisterByte.ofCodes?] at ht
      split at ht
      · cases ht
      · next r hr =>
        split at ht
        · cases ht
        · next hne =>
          cases ht
          have hlt := (opcode.extractLsb' 0 2).isLt
          cases r <;> simp [ofHeader, Valid, flaw?] at hne ⊢ <;> omega
  · -- a poll
    cases h
    have hlt := (opcode.extractLsb' 0 5).isLt
    simp [ofHeader, Valid, flaw?]
    omega
  all_goals
    -- a transfer
    split at h
    · cases h
    · cases h
      have hlt := (opcode.extractLsb' 2 3).isLt
      simp [ofHeader, Valid, flaw?, countFlaw?, maxCount]
      omega

/-- The written data of a valid operation has the length that its header announces. -/
theorem length_payload {op : Op} (h : op.Valid) :
    op.payload.length = op.header.payloadLength := by
  cases op with
  | write address width data increment =>
      simp only [payload, header, Header.payloadLength, length_mod_of_valid h]
      clear h
      induction data with
      | nil => simp
      | cons v data ih =>
          rw [List.flatMap_cons, List.length_append, ih, LittleEndian.length_toBytes,
            List.length_cons, Nat.succ_mul, Nat.add_comm]
  | _ => rfl

/-- Header and data of a valid operation make up the operation, with its values cut to width. -/
theorem ofHeader_header {op : Op} (h : op.Valid) : ofHeader op.header op.payload = op.masked := by
  cases op with
  | write address width data increment =>
      simp only [header, length_mod_of_valid h, ofHeader, payload, masked, values_flatMap]
  | _ => rfl

/-- An operation has the header that it was made with, if it is valid. -/
theorem header_ofHeader {header : Header} {payload : List Byte}
    (h : (ofHeader header payload).Valid) : (ofHeader header payload).header = header := by
  cases header with
  | write address width count increment =>
      have hcount := length_mod_of_valid h
      rw [length_values] at hcount
      simp only [ofHeader, Op.header, length_values, hcount]
  | _ => rfl

/-- An operation has the data bytes that it was made with, if they are as many as its header
announces. -/
theorem payload_ofHeader {header : Header} {payload : List Byte}
    (h : payload.length = header.payloadLength) : (ofHeader header payload).payload = payload := by
  cases header with
  | write address width count increment => exact flatMap_values width h
  | _ => exact (List.eq_nil_of_length_eq_zero h).symm

/-- **An operation is written as it was read.** -/
theorem bytes_ofHeader {opcode operand : Byte} {header : Header} {payload : List Byte}
    (hd : Header.decode opcode operand = .ok header)
    (hp : payload.length = header.payloadLength) :
    (ofHeader header payload).bytes = opcode :: operand :: payload := by
  rw [bytes, header_ofHeader (valid_ofHeader hd payload), payload_ofHeader hp,
    Header.encode_of_decode hd]

/-- The values of an operation that is read fit their width. -/
theorem masked_ofHeader (header : Header) (payload : List Byte) :
    (ofHeader header payload).masked = ofHeader header payload := by
  cases header with
  | write address width count increment =>
      simp only [ofHeader, masked, map_and_mask_values]
  | _ => rfl

/-! ### Reading bytes -/

@[simp] theorem readAll?_nil : readAll? [] = some [] := by
  simp [readAll?, readAll]

/-- Reading one complete operation and then the rest. -/
theorem readAll_operation {opcode operand : Byte} {header : Header} {payload : List Byte}
    (hd : Header.decode opcode operand = .ok header)
    (hp : payload.length = header.payloadLength) (rest : List Byte) :
    readAll (opcode :: operand :: (payload ++ rest)) =
      (ofHeader header payload :: (readAll rest).1, (readAll rest).2) := by
  have hlt : ¬ (payload ++ rest).length < header.payloadLength := by
    simp
    omega
  rw [readAll, hd]
  simp only [hlt, if_false]
  rw [List.take_left' hp, List.drop_left' hp]

/-- **Induction over complete operations**: bytes that are read whole are empty, or begin with
one operation and go on with bytes that are read whole. -/
theorem readAll?_induction {motive : List Byte → List Op → Prop} (nil : motive [] [])
    (operation : ∀ {opcode operand header payload rest ops},
      Header.decode opcode operand = .ok header → payload.length = header.payloadLength →
      readAll? rest = some ops → motive rest ops →
      motive (opcode :: operand :: (payload ++ rest)) (ofHeader header payload :: ops))
    {bytes : List Byte} {ops : List Op} (h : readAll? bytes = some ops) : motive bytes ops := by
  induction hn : bytes.length using Nat.strongRecOn generalizing bytes ops with
  | ind n ih =>
      unfold readAll? readAll at h
      match bytes with
      | [] =>
          cases h
          exact nil
      | [_] => cases h
      | opcode :: operand :: rest =>
          simp only at h
          cases hd : Header.decode opcode operand with
          | error e => simp [hd] at h
          | ok header =>
              simp only [hd] at h
              by_cases hlt : rest.length < header.payloadLength
              · simp [hlt] at h
              · simp only [hlt, if_false] at h
                have hp : (rest.take header.payloadLength).length = header.payloadLength := by
                  simp
                  omega
                cases hr : readAll (rest.drop header.payloadLength) with
                | mk ops' left =>
                    rw [hr] at h
                    cases left with
                    | nothing =>
                        cases h
                        have hrest : readAll? (rest.drop header.payloadLength) = some ops' := by
                          simp [readAll?, hr]
                        have := operation hd hp hrest (ih _ (by simp at hn ⊢; omega) hrest rfl)
                        rwa [List.take_append_drop] at this
                    | malformed e => cases h
                    | incomplete => cases h

/-- **Reading undoes writing**: a valid operation in front of complete operations. -/
theorem readAll?_bytes_append {op : Op} (h : op.Valid) {rest : List Byte} {ops : List Op}
    (hrest : readAll? rest = some ops) : readAll? (op.bytes ++ rest) = some (op.masked :: ops) := by
  have hread : readAll (op.bytes ++ rest) = (op.masked :: (readAll rest).1, (readAll rest).2) := by
    rw [← ofHeader_header h]
    exact readAll_operation (Header.decode_encode h) (length_payload h) rest
  rw [readAll?] at hrest ⊢
  rw [hread]
  cases hr : readAll rest with
  | mk ops' left =>
      rw [hr] at hrest
      cases left with
      | nothing => cases hrest; rfl
      | malformed e => cases hrest
      | incomplete => cases hrest

/-- **Writing undoes reading**: complete operations are valid, their values fit their width, and
they are written as the bytes that they were read from. -/
theorem bytes_of_readAll? {bytes : List Byte} {ops : List Op} (h : readAll? bytes = some ops) :
    ops.flatMap Op.bytes = bytes ∧ ∀ op ∈ ops, op.Valid ∧ op.masked = op := by
  refine readAll?_induction (motive := fun bytes ops =>
    ops.flatMap Op.bytes = bytes ∧ ∀ op ∈ ops, op.Valid ∧ op.masked = op) ?_ ?_ h
  · exact ⟨rfl, List.forall_mem_nil _⟩
  · rintro opcode operand header payload rest ops hd hp - ⟨hbytes, hops⟩
    constructor
    · rw [List.flatMap_cons, bytes_ofHeader hd hp, hbytes]
      rfl
    · rw [List.forall_mem_cons]
      exact ⟨⟨valid_ofHeader hd _, masked_ofHeader _ _⟩, hops⟩

end Op

theorem Script.valid_toList (s : Script) : ∀ op ∈ s.ops.toList, op.Valid := fun op hop =>
  s.valid op (Array.mem_toList_iff.mp hop)

/-- **The bytes of a script are read as its operations**, with values cut to their width. -/
theorem Script.readAll?_bytes (s : Script) :
    Op.readAll? s.bytes = some (s.ops.toList.map Op.masked) := by
  have hvalid := s.valid_toList
  rw [Script.bytes]
  generalize s.ops.toList = ops at hvalid
  induction ops with
  | nil => exact Op.readAll?_nil
  | cons op ops ih =>
      obtain ⟨hop, hops⟩ := List.forall_mem_cons.mp hvalid
      exact Op.readAll?_bytes_append hop (ih hops)

end BusScript
