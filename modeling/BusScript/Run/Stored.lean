import BusScript.Feeder.Stored
import BusScript.Run.Basic

/-!
# Running a Stored Script

A processor asks a stored feeder for the script at one address until the request is
acknowledged, and then waits.
-/

namespace BusScript

namespace Run

/-- A stored feeder with its store, its processor and a target. -/
structure StoredSystem (τ : Type) where
  feeder : Feeder.Stored
  store : Store
  target : τ
  /-- The request, until it is acknowledged. -/
  request : Option (BitVec 16)

namespace StoredSystem

/-- A new feeder whose processor asks for the script at `address`. -/
def new {τ : Type} (options : Options) (store : Store) (target : τ) (address : BitVec 16) :
    StoredSystem τ :=
  ⟨.new options, store, target, some address⟩

/-- The engine in the system. -/
def engine {τ : Type} (s : StoredSystem τ) : Engine := s.feeder.engine

/-- One cycle. -/
def cycle {τ : Type} [Bus.Target τ] (s : StoredSystem τ) : StoredSystem τ × Report :=
  let ⟨feeder, store, target, request⟩ := s
  let (feeder, target, acknowledged, report) := feeder.cycle store target request
  (⟨feeder, store, target, if acknowledged then none else request⟩, report)

end StoredSystem

end Run

/-- Runs the script that a store holds at an address on a new engine. -/
def runStored {τ : Type} [Bus.Target τ] (options : Options) (store : Store) (target : τ)
    (address : BitVec 16) : Except Run.LimitError Run.Summary × τ :=
  let (result, system) := Run.complete Run.StoredSystem.cycle Run.StoredSystem.engine
    (.new options store target address)
  (result, system.target)

end BusScript
