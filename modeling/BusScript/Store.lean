import BusScript.Command.Word

/-!
# Command Stores

A `Store` holds command words under 16-bit addresses for an engine that fetches them on its
own. It need not hold a word at every address.
-/

namespace BusScript

/-- Words that can be fetched by address, after a number of cycles. -/
structure Store where
  latency : Nat
  fetch : BitVec 16 → Option Command.Word

/-- A store that holds words from address 0 on. -/
def Store.ofWords (words : Array Command.Word) (latency : Nat) : Store :=
  ⟨latency, fun address => words[address.toNat]?⟩

/-- The word found outside a store. -/
def Store.sentinel : Command.Word := (Command.data .empty true).pack

end BusScript
