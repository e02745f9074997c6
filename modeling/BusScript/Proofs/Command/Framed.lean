import BusScript.Command.Framing
import BusScript.Proofs.Command.Decoding

/-!
# Framed Byte Strings

The bytes of a script can be cut into command words in many ways: `Script.words` is one, and
clients may choose others, with shorter or empty payloads and with idle words between.
`Framed words bytes` says that `words` is any such way for `bytes`:

`idle* start (idle* data)* idle* last idle*`

where the start may or may not clear the registers, and the payloads make up `bytes`. Only the
commands matter that the words decode to, so a word may hold anything in its reserved bits.

## Main results

* `Command.Delivers.take` — what is to come after some bytes of a word have been taken.
* `Script.framed_words` — the words of a script frame its bytes.
-/

namespace BusScript

namespace Command

/-- Words that ask for nothing. -/
def Quiet (words : List Word) : Prop :=
  ∀ w ∈ words, w.decode = .ok .idle

/-- Words that carry `bytes` to a script that has been started. -/
inductive Carries : List Word → List Byte → Prop
  | idle {w : Word} {words : List Word} {bytes : List Byte} :
      w.decode = .ok .idle → Carries words bytes → Carries (w :: words) bytes
  | data {w : Word} {words : List Word} {bytes : List Byte} {p : Payload} :
      w.decode = .ok (.data p false) → Carries words bytes →
      Carries (w :: words) (p.bytes ++ bytes)
  | last {w : Word} {words : List Word} {p : Payload} :
      w.decode = .ok (.data p true) → Quiet words → Carries (w :: words) p.bytes

/-- Words that start a script and carry `bytes` to it. -/
inductive Framed : List Word → List Byte → Prop
  | idle {w : Word} {words : List Word} {bytes : List Byte} :
      w.decode = .ok .idle → Framed words bytes → Framed (w :: words) bytes
  | start {w : Word} {words : List Word} {bytes : List Byte} {clear : Bool} :
      w.decode = .ok (.start clear) → Carries words bytes → Framed (w :: words) bytes

/-- No script is framed without words. -/
theorem Framed.ne_nil {words : List Word} {bytes : List Byte} (h : Framed words bytes) :
    words ≠ [] := by
  cases h <;> exact List.cons_ne_nil _ _

/-- The word in front of quiet words, and the words after it. -/
theorem quiet_cons {w : Word} {words : List Word} :
    Quiet (w :: words) ↔ w.decode = .ok .idle ∧ Quiet words :=
  List.forall_mem_cons

/-! ### Inversion by the word in front -/

/-- Behind an idle word stands what carries the same bytes. -/
theorem Carries.of_idle {w : Word} {words : List Word} {bytes : List Byte}
    (h : Carries (w :: words) bytes) (hw : w.decode = .ok .idle) : Carries words bytes := by
  cases h with
  | idle _ h => exact h
  | data hd _ => simp [hw] at hd
  | last hd _ => simp [hw] at hd

/-- The word in front of words that carry bytes is idle or a data word. -/
theorem Carries.decode_head {w : Word} {words : List Word} {bytes : List Byte}
    (h : Carries (w :: words) bytes) :
    w.decode = .ok .idle ∨ ∃ p last, w.decode = .ok (.data p last) := by
  cases h with
  | idle hw _ => exact .inl hw
  | data hd _ => exact .inr ⟨_, _, hd⟩
  | last hd _ => exact .inr ⟨_, _, hd⟩

/-- A data word in front that is not the last brings its payload first. -/
theorem Carries.of_data {w : Word} {words : List Word} {bytes : List Byte} {p : Payload}
    (h : Carries (w :: words) bytes) (hw : w.decode = .ok (.data p false)) :
    ∃ rest, bytes = p.bytes ++ rest ∧ Carries words rest := by
  cases h with
  | idle hd _ => simp [hw] at hd
  | data hd h =>
      obtain rfl : p = _ := by simpa [hw] using hd
      exact ⟨_, rfl, h⟩
  | last hd _ => simp [hw] at hd

/-- The last data word brings all that is left. -/
theorem Carries.of_last {w : Word} {words : List Word} {bytes : List Byte} {p : Payload}
    (h : Carries (w :: words) bytes) (hw : w.decode = .ok (.data p true)) :
    bytes = p.bytes ∧ Quiet words := by
  cases h with
  | idle hd _ => simp [hw] at hd
  | data hd _ => simp [hw] at hd
  | last hd h =>
      obtain rfl : p = _ := by simpa [hw] using hd
      exact ⟨rfl, h⟩

/-! ### Words on their way to an input -/

/-- What is still to come to an input: nothing but idle words once it is closed, and until then
words that carry the bytes it lacks. -/
def Delivers (closed : Bool) (words : List Word) (bytes : List Byte) : Prop :=
  if closed then bytes = [] ∧ Quiet words else Carries words bytes

/-- The word in front is idle, or the input is open and it is a data word. -/
theorem Delivers.decode_head {closed : Bool} {w : Word} {words : List Word} {bytes : List Byte}
    (h : Delivers closed (w :: words) bytes) :
    (w.decode = .ok .idle ∧ Delivers closed words bytes) ∨
      ∃ p last, closed = false ∧ w.decode = .ok (.data p last) := by
  cases closed with
  | true =>
      obtain ⟨hbytes, hquiet⟩ := h
      obtain ⟨hw, hwords⟩ := quiet_cons.mp hquiet
      exact .inl ⟨hw, hbytes, hwords⟩
  | false =>
      rcases Carries.decode_head h with hw | ⟨p, last, hw⟩
      · exact .inl ⟨hw, Carries.of_idle h hw⟩
      · exact .inr ⟨p, last, rfl, hw⟩

/-- **Taking bytes of the word in front**: they are the first of the bytes to come, the rest
stays to come, and taking the last byte of the last word closes the input. -/
theorem Delivers.take {w : Word} {words : List Word} {bytes : List Byte} {p : Payload}
    {last : Bool} {n : Nat} (h : Delivers false (w :: words) bytes)
    (hw : w.decode = .ok (.data p last)) (hn : n ≤ p.length) :
    ∃ rest, bytes = p.bytes.take n ++ rest ∧
      Delivers (last && n == p.length) ((w.leftover? n).toList ++ words) rest := by
  have hcarries : Carries (w :: words) bytes := h
  rw [Word.leftover?_data hw]
  by_cases hall : n = p.length
  · have htake : p.bytes.take n = p.bytes := List.take_of_length_le (Nat.le_of_eq hall.symm)
    rw [if_pos (Nat.le_of_eq hall.symm), htake]
    cases last with
    | false =>
        obtain ⟨rest, hbytes, hrest⟩ := hcarries.of_data hw
        exact ⟨rest, hbytes, hrest⟩
    | true =>
        obtain ⟨hbytes, hquiet⟩ := hcarries.of_last hw
        refine ⟨[], by rw [hbytes, List.append_nil], ?_⟩
        simp only [hall, beq_self_eq_true, Bool.and_self]
        exact ⟨rfl, hquiet⟩
  · have hlt : ¬ p.length ≤ n := by omega
    have hopen : (last && n == p.length) = false := by simp [hall]
    have hleft := Word.decode_consume hw n
    have hsplit : p.bytes = p.bytes.take n ++ (p.drop n).bytes := by
      rw [Payload.bytes_drop, List.take_append_drop]
    rw [if_neg hlt, hopen]
    cases last with
    | false =>
        obtain ⟨rest, hbytes, hrest⟩ := hcarries.of_data hw
        refine ⟨(p.drop n).bytes ++ rest, ?_, .data hleft hrest⟩
        rw [← List.append_assoc, ← hsplit, hbytes]
    | true =>
        obtain ⟨hbytes, hquiet⟩ := hcarries.of_last hw
        exact ⟨(p.drop n).bytes, by rw [← hsplit, hbytes], .last hleft hquiet⟩

/-! ### The words of a script -/

/-- The data commands that carry bytes do carry them. -/
theorem carries_frame (bytes : List Byte) : Carries ((frame bytes).map pack) bytes := by
  induction bytes using frame_induction with
  | last bytes h =>
      rw [frame_of_length_le h]
      exact .last (decode_pack _) (by simp [Quiet])
  | more bytes h hrest =>
      rw [frame_of_lt_length h, List.map_cons]
      have hdata := Carries.data (decode_pack (.data (.take bytes) false)) hrest
      rw [Payload.take, List.take_append_drop] at hdata
      exact hdata

/-- Words of which exactly the last one carries the last bytes of a script. -/
def Closing : List Word → Prop
  | [] => True
  | w :: words => (w.isDataLast = true ↔ words = []) ∧ Closing words

/-- Such words have a last one. -/
theorem Closing.exists_isDataLast {words : List Word} (h : Closing words) (hne : words ≠ []) :
    ∃ w ∈ words, w.isDataLast = true := by
  induction words with
  | nil => exact absurd rfl hne
  | cons w words ih =>
      obtain ⟨hlast, hwords⟩ := h
      by_cases hnil : words = []
      · exact ⟨w, List.mem_cons_self, hlast.mpr hnil⟩
      · obtain ⟨w', hmem, hw'⟩ := ih hwords hnil
        exact ⟨w', List.mem_cons_of_mem _ hmem, hw'⟩

/-- What is left of a word is the last one if the word is. -/
theorem isDataLast_of_leftover? {w w' : Word} {n : Nat} (h : w.leftover? n = some w') :
    w'.isDataLast = w.isDataLast := by
  have hkeep : (w.consume n).opcode = w.opcode := Word.opcode_ofFields _ _ _
  obtain rfl : w.consume n = w' := by
    rw [Word.leftover?] at h
    split at h
    · split at h
      · cases h
      · exact Option.some.inj h
    · cases h
  rw [Word.isDataLast, Word.isDataLast, hkeep]

/-- The data commands that carry bytes close with their last one. -/
theorem closing_frame (bytes : List Byte) :
    (frame bytes).map pack ≠ [] ∧ Closing ((frame bytes).map pack) := by
  induction bytes using frame_induction with
  | last bytes h =>
      rw [frame_of_length_le h]
      refine ⟨by simp, ?_, trivial⟩
      rw [Word.isDataLast_of_decode (decode_pack _)]
      exact ⟨fun _ => rfl, fun _ => rfl⟩
  | more bytes h ih =>
      obtain ⟨hne, hrest⟩ := ih
      rw [frame_of_lt_length h, List.map_cons]
      refine ⟨by simp, ?_, hrest⟩
      rw [Word.isDataLast_of_decode (decode_pack _)]
      exact ⟨fun hlast => absurd hlast Bool.false_ne_true, fun hnil => absurd hnil hne⟩

end Command

/-- The words of a script close with their last one. -/
theorem Script.closing_words (s : Script) : Command.Closing s.words := by
  obtain ⟨hne, hrest⟩ := Command.closing_frame s.bytes
  rw [Script.words, Script.commands, List.map_cons]
  refine ⟨?_, hrest⟩
  rw [Command.Word.isDataLast_of_decode (Command.decode_pack _)]
  exact ⟨fun hlast => absurd hlast Bool.false_ne_true, fun hnil => absurd hnil hne⟩

/-- **The words of a script frame its bytes.** -/
theorem Script.framed_words (s : Script) : Command.Framed s.words s.bytes := by
  rw [Script.words, Script.commands, List.map_cons]
  exact .start (Command.decode_pack _) (Command.carries_frame _)

/-- Every script takes a word at least, also the empty one. -/
theorem Script.length_words_pos (s : Script) : 0 < s.words.length :=
  List.length_pos_iff.mpr s.framed_words.ne_nil

end BusScript
