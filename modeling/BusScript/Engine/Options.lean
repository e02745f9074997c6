import BusScript.Bytes

/-!
# Engine Options

What is fixed for the life of an engine: the register defaults, the step between successive
addresses, and how long a run may take. Two values are out of bounds, and the type rules them
out: a stride of zero, and a limit on cycles beyond `Options.cycleBound`.
-/

namespace BusScript

namespace Options

/-- The largest limit that a run can be given. -/
def cycleBound : Nat := 1 <<< 29

/-- The limit of a run that is not given one. -/
def defaultMaxCycles : Nat := 1 <<< 20

end Options

/-- The fixed parameters of an engine. -/
structure Options where
  /-- The poll count register after a clearing start. -/
  pollCount : Value := 1024
  /-- The poll delay register after a clearing start. -/
  pollDelay : Value := 0
  /-- What an incrementing transfer adds to its address. -/
  stride : Value := 1
  /-- The most cycles that a run may take. -/
  maxCycles : Nat := Options.defaultMaxCycles
  stride_ne_zero : stride ≠ 0 := by decide
  maxCycles_le : maxCycles ≤ Options.cycleBound := by decide
  deriving DecidableEq, Repr

/-- Why options are refused. -/
inductive OptionsError where
  | maxCyclesTooBig (cycles : Nat)
  | zeroStride
  deriving DecidableEq, Repr

/-- The wording of a refusal. -/
def OptionsError.message : OptionsError → String
  | .maxCyclesTooBig cycles =>
    "maximum number of cycles " ++ toString cycles ++ " is greater than the allowed 2^29"
  | .zeroStride => "address stride must be non-zero"

namespace Options

instance : Inhabited Options := ⟨{}⟩

/-- Options with given values, if they are in bounds. The limit is looked at first. -/
def make? (pollCount pollDelay stride : Value) (maxCycles : Nat) :
    Except OptionsError Options :=
  if hm : maxCycles ≤ cycleBound then
    if hs : stride ≠ 0 then
      .ok { pollCount, pollDelay, stride, maxCycles, stride_ne_zero := hs, maxCycles_le := hm }
    else .error .zeroStride
  else .error (.maxCyclesTooBig maxCycles)

end Options

end BusScript
