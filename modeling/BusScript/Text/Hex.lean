/-!
# Hexadecimal Text

Every number that the library prints for a machine or an engineer is written in lower-case
hexadecimal, high digit first, with a **fixed number of digits** (`Hex.digits`) or, where it may be
too large for that, with **at least** such a number (`Hex.digitsAtLeast`). `Hex.read?` reads a
number back.

## Main results

* `Hex.length_digits` — a number takes exactly the digits it is given;
* `Hex.digitsAtLeast_eq` — a number that fits takes no more than the least number of digits;
* `Hex.read?_digits` — reading the digits of a number that fits gives the number.
-/

namespace BusScript.Hex

/-- The lower-case character of a digit below 16. -/
def digit (n : Nat) : Char :=
  if n < 10 then Char.ofNat (48 + n) else Char.ofNat (87 + n)

/-- The value of a hexadecimal character, in either case. -/
def digitValue? (c : Char) : Option Nat :=
  if '0' ≤ c ∧ c ≤ '9' then some (c.toNat - 48)
  else if 'a' ≤ c ∧ c ≤ 'f' then some (c.toNat - 87)
  else if 'A' ≤ c ∧ c ≤ 'F' then some (c.toNat - 55)
  else none

/-- The lowest `width` hexadecimal digits of `n`, high digit first. -/
def digits : Nat → Nat → List Char
  | 0, _ => []
  | width + 1, n => digits width (n / 16) ++ [digit (n % 16)]

/-- The number written by a list of digits, if there is at least one and all are
hexadecimal. -/
def read? : List Char → Option Nat
  | [] => none
  | cs => cs.foldlM (fun n c => (digitValue? c).map (16 * n + ·)) 0

/-- The least number of digits, one at least, that `n` can be written with. -/
def length (n : Nat) : Nat :=
  if h : n < 16 then 1 else length (n / 16) + 1
termination_by n
decreasing_by omega

/-- The digits of `n`, at least `width` of them. -/
def digitsAtLeast (width n : Nat) : List Char :=
  digits (max width (length n)) n

/-- The text of the lowest `width` digits of `n`. -/
def text (width n : Nat) : String :=
  String.ofList (digits width n)

/-- The text of `n` in at least `width` digits. -/
def textAtLeast (width n : Nat) : String :=
  String.ofList (digitsAtLeast width n)

@[simp] theorem length_digits (width n : Nat) : (digits width n).length = width := by
  induction width generalizing n with
  | zero => rfl
  | succ width ih => simp [digits, ih]

/-- A number that fits into some digits can be written with them. -/
theorem length_le {width n : Nat} (hw : 0 < width) (h : n < Nat.pow 16 width) :
    length n ≤ width := by
  induction width generalizing n with
  | zero => cases hw
  | succ width ih =>
    have hpow : Nat.pow 16 (width + 1) = Nat.pow 16 width * 16 := rfl
    rw [length]
    split
    · exact hw
    · next hlarge =>
      have hdiv : n / 16 < Nat.pow 16 width := by omega
      have hpos : 0 < width := by
        cases width with
        | zero => exact absurd h hlarge
        | succ width => exact Nat.succ_pos width
      have hle := ih hpos hdiv
      omega

/-- **A number that fits takes no more digits than it has to.** -/
theorem digitsAtLeast_eq {width n : Nat} (hw : 0 < width) (h : n < Nat.pow 16 width) :
    digitsAtLeast width n = digits width n := by
  rw [digitsAtLeast, Nat.max_eq_left (length_le hw h)]

/-- A written digit reads back as itself. -/
theorem digitValue?_digit : ∀ n < 16, digitValue? (digit n) = some n := by
  decide

/-- Reading from a running total: the digits of a number that fits shift the total up and
add the number. -/
theorem foldlM_digits (width n total : Nat) (h : n < Nat.pow 16 width) :
    (digits width n).foldlM (fun n c => (digitValue? c).map (16 * n + ·)) total =
      some (Nat.pow 16 width * total + n) := by
  induction width generalizing n with
  | zero =>
    have : n = 0 := by simpa using h
    simp [digits, this]
  | succ width ih =>
    have hpow : Nat.pow 16 (width + 1) = Nat.pow 16 width * 16 := rfl
    have hdiv : n / 16 < Nat.pow 16 width := by
      rw [hpow] at h
      omega
    have hmod : n % 16 < 16 := Nat.mod_lt _ (by decide)
    have hsum : 16 * (Nat.pow 16 width * total + n / 16) + n % 16 =
        Nat.pow 16 (width + 1) * total + n := by
      have h₁ : Nat.pow 16 (width + 1) * total = 16 * (Nat.pow 16 width * total) := by
        rw [hpow, Nat.mul_comm (Nat.pow 16 width) 16, Nat.mul_assoc]
      omega
    simp [digits, List.foldlM_append, ih _ hdiv, digitValue?_digit _ hmod]
    exact hsum

/-- **Hexadecimal round trip**: a number that fits its digits reads back as itself. -/
theorem read?_digits (width n : Nat) (hw : 0 < width) (h : n < Nat.pow 16 width) :
    read? (digits width n) = some n := by
  have hfold := foldlM_digits width n 0 h
  have hlen := length_digits width n
  cases hd : digits width n with
  | nil => simp [hd] at hlen; omega
  | cons c cs =>
    rw [hd] at hfold
    simpa [read?] using hfold

end BusScript.Hex
