/-!
# JSON Numerals

A numeral is an optional minus sign, a whole part without leading zeros, and optionally a
fraction and an exponent. Documents here only ever use natural numbers, so `Numeral` keeps the
value of a plain one and forgets the rest. A numeral too large for a double is no numeral.
-/

namespace BusScript.Json

/-- A JSON number, as far as documents use it. -/
inductive Numeral where
  /-- Digits only: no sign, fraction or exponent. -/
  | natural (n : Nat)
  /-- Any other number. -/
  | other
  deriving DecidableEq, Repr

namespace Numeral

/-- The value of a decimal digit. -/
def digitValue (c : Char) : Nat := c.toNat - 48

/-- The value of a list of decimal digits. -/
def decimal (digits : List Char) : Nat :=
  digits.foldl (fun n c => 10 * n + digitValue c) 0

/-- The leading digits of a numeral, as many as fit into 64 bits, and the power of ten that
makes up for the digits that were left out or stand behind the point. -/
structure Magnitude where
  significand : Nat := 0
  exponent : Int := 0
  /-- Whether a digit has been left out. -/
  full : Bool := false

/-- Takes one more digit, if it fits. -/
def Magnitude.push? (m : Magnitude) (c : Char) : Option Magnitude :=
  let significand := 10 * m.significand + digitValue c
  if m.full || 1 <<< 64 ≤ significand then none else some { m with significand }

/-- Takes a digit of the whole part: one that does not fit still counts by its place. -/
def Magnitude.pushWhole (m : Magnitude) (c : Char) : Magnitude :=
  match m.push? c with
  | some m => m
  | none => { m with exponent := m.exponent + 1, full := true }

/-- Takes a digit behind the point: one that does not fit is dropped. -/
def Magnitude.pushFraction (m : Magnitude) (c : Char) : Magnitude :=
  match m.push? c with
  | some m => { m with exponent := m.exponent - 1 }
  | none => { m with full := true }

/-- The magnitude of the digits before and behind the point. -/
def magnitude (whole fraction : List Char) : Magnitude :=
  let m := whole.foldl Magnitude.pushWhole {}
  fraction.foldl Magnitude.pushFraction { m with full := false }

/-- Whether a double can hold a magnitude without becoming infinite. -/
def Magnitude.fits (m : Magnitude) : Bool :=
  m.significand == 0 || m.exponent ≤ 0 ||
    (m.exponent ≤ 308 &&
      !(Float.ofNat m.significand * Float.ofScientific 1 false m.exponent.toNat).isInf)

/-- Splits leading digits off. -/
def digits (cs : List Char) : List Char × List Char :=
  (cs.takeWhile Char.isDigit, cs.dropWhile Char.isDigit)

/-- Splits a fraction off, if there is one; a point needs digits behind it. -/
def fraction? : List Char → Option (Option (List Char) × List Char)
  | '.' :: cs =>
    match digits cs with
    | ([], _) => none
    | (ds, rest) => some (some ds, rest)
  | cs => some (none, cs)

/-- Splits an exponent off, if there is one; it needs digits behind its sign. -/
def exponent? : List Char → Option (Option Int × List Char)
  | [] => some (none, [])
  | c :: cs =>
    if c = 'e' ∨ c = 'E' then
      let (negative, cs) := match cs with
        | '-' :: cs => (true, cs)
        | '+' :: cs => (false, cs)
        | cs => (false, cs)
      match digits cs with
      | ([], _) => none
      | (ds, rest) =>
        let n : Int := decimal ds
        some (some (if negative then -n else n), rest)
    else some (none, c :: cs)

/-- Reads a numeral. -/
def read? (cs : List Char) : Option Numeral := do
  let (negative, cs) := match cs with
    | '-' :: cs => (true, cs)
    | cs => (false, cs)
  let (whole, cs) := digits cs
  guard (whole ≠ [] ∧ (whole.head? = some '0' → whole.length = 1))
  let (fraction, cs) ← fraction? cs
  let (exponent, cs) ← exponent? cs
  guard (cs = [])
  let m := magnitude whole (fraction.getD [])
  guard { m with exponent := m.exponent + exponent.getD 0 }.fits
  if negative || fraction.isSome || exponent.isSome then return other
  else return natural (decimal whole)

end Numeral

end BusScript.Json
