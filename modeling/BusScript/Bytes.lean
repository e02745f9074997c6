/-!
# Bytes and Little-Endian Values

Scripts, command words and transfers all move bytes, and every multi-byte field of the
format is **little-endian**: the first byte is the lowest one. `LittleEndian.ofBytes` and
`LittleEndian.toBytes` are that rule, at any width; the rest of the library never shifts
bytes by hand.

## Main results

* `LittleEndian.getLsbD_ofBytes` — the bits of an assembled value, byte by byte;
* `LittleEndian.toBytes_ofBytes` — cutting an assembled value gives its bytes back;
* `LittleEndian.ofBytes_toBytes` — assembling the first `n` bytes of a value keeps its
  low `8 * n` bits and clears the others.
-/

namespace BusScript

/-- A byte of a script, a payload or a queue. -/
abbrev Byte := BitVec 8

/-- An address on the bus. -/
abbrev Address := BitVec 32

/-- A word of data on the bus, or the contents of a register. -/
abbrev Value := BitVec 32

namespace LittleEndian

/-- The value whose bytes, lowest first, are `bytes`. Bytes that do not fit into `w` bits
are dropped. -/
def ofBytes (w : Nat) : List Byte → BitVec w
  | [] => 0
  | b :: bytes => b.setWidth w ||| ofBytes w bytes <<< 8

/-- The lowest `n` bytes of a value, lowest first. -/
def toBytes {w : Nat} : Nat → BitVec w → List Byte
  | 0, _ => []
  | n + 1, v => v.setWidth 8 :: toBytes n (v >>> 8)

@[simp] theorem ofBytes_nil (w : Nat) : ofBytes w [] = 0 := rfl

@[simp] theorem toBytes_zero {w : Nat} (v : BitVec w) : toBytes 0 v = [] := rfl

@[simp] theorem length_toBytes {w : Nat} (n : Nat) (v : BitVec w) :
    (toBytes n v).length = n := by
  induction n generalizing v with
  | zero => rfl
  | succ n ih => simp [toBytes, ih]

/-- Bit `i` of an assembled value is bit `i % 8` of byte `i / 8`. -/
theorem getLsbD_ofBytes (w : Nat) (bytes : List Byte) (i : Nat) :
    (ofBytes w bytes).getLsbD i =
      (decide (i < w) && (bytes[i / 8]?.getD 0).getLsbD (i % 8)) := by
  induction bytes generalizing i with
  | nil => simp [ofBytes]
  | cons b bytes ih =>
    rw [ofBytes, BitVec.getLsbD_or, BitVec.getLsbD_setWidth, BitVec.getLsbD_shiftLeft, ih]
    by_cases h : i < 8
    · have hdiv : i / 8 = 0 := by omega
      have hmod : i % 8 = i := by omega
      simp [h, hdiv, hmod]
    · have hdiv : i / 8 = (i - 8) / 8 + 1 := by omega
      have hmod : i % 8 = (i - 8) % 8 := by omega
      have hb : b.getLsbD i = false := BitVec.getLsbD_of_ge b i (by omega)
      by_cases hw : i < w
      · have hlt : i - 8 < w := by omega
        simp [h, hb, hw, hlt, hdiv, hmod]
      · simp [hw]

/-- Byte `k` of a value is the eight bits from bit `8 * k` on. -/
theorem getElem?_toBytes {w : Nat} (n : Nat) (v : BitVec w) (k : Nat) :
    (toBytes n v)[k]? = if k < n then some ((v >>> (8 * k)).setWidth 8) else none := by
  induction n generalizing v k with
  | zero => simp
  | succ n ih =>
    cases k with
    | zero => simp [toBytes]
    | succ k =>
      rw [toBytes, List.getElem?_cons_succ, ih, ← BitVec.shiftRight_add,
        show 8 + 8 * k = 8 * (k + 1) by omega]
      simp

/-- Cutting an assembled value gives its bytes back, as long as they all fit. -/
theorem toBytes_ofBytes (w : Nat) (bytes : List Byte) (h : 8 * bytes.length ≤ w) :
    toBytes bytes.length (ofBytes w bytes) = bytes := by
  apply List.ext_getElem?
  intro k
  rw [getElem?_toBytes]
  split
  · next hk =>
    rw [List.getElem?_eq_getElem hk]
    congr 1
    apply BitVec.eq_of_getLsbD_eq
    intro i hi
    have hdiv : (8 * k + i) / 8 = k := by omega
    have hmod : (8 * k + i) % 8 = i := by omega
    have hlt : 8 * k + i < w := by omega
    rw [BitVec.getLsbD_setWidth, BitVec.getLsbD_ushiftRight, getLsbD_ofBytes, hdiv, hmod,
      List.getElem?_eq_getElem hk]
    simp [hi, hlt]
  · next hk => exact (List.getElem?_eq_none (by omega)).symm

/-- Assembling the lowest `n` bytes of a value keeps its low `8 * n` bits and clears the
others. -/
theorem ofBytes_toBytes {w : Nat} (n : Nat) (v : BitVec w) :
    ofBytes w (toBytes n v) = (v.setWidth (8 * n)).setWidth w := by
  apply BitVec.eq_of_getLsbD_eq
  intro i hi
  have hsum : 8 * (i / 8) + i % 8 = i := by omega
  have hmod : i % 8 < 8 := by omega
  rw [getLsbD_ofBytes, getElem?_toBytes, BitVec.getLsbD_setWidth, BitVec.getLsbD_setWidth]
  by_cases hn : i < 8 * n
  · have hlt : i / 8 < n := by omega
    rw [if_pos hlt, Option.getD_some, BitVec.getLsbD_setWidth, BitVec.getLsbD_ushiftRight, hsum]
    simp [hn, hmod]
  · have hlt : ¬ i / 8 < n := by omega
    rw [if_neg hlt, Option.getD_none]
    simp [hn]

end LittleEndian

end BusScript
