import BusScript.Bus.Master

/-!
# Bus Targets

A **target** is whatever answers the requests of a master: it sees the wires of each cycle
once, answers in the same cycle, and may change its state. `Master.drive` is one cycle of a
master against a target.
-/

namespace BusScript.Bus

/-- Anything that answers one request per cycle. -/
class Target (τ : Type) where
  /-- The answer to the wires of one cycle, and the target after that cycle. -/
  respond : τ → Request → Response × τ

/-- One cycle of a master against a target: what retired, if anything, and both after it. -/
def Master.drive {τ : Type} [Target τ] (m : Master) (target : τ) :
    Option (Transaction × Outcome) × Master × τ :=
  let (answer, target) := Target.respond target m.request
  let (m, retired) := m.advance answer
  (retired, m, target)

end BusScript.Bus
