import BusScript.Bus.Target

/-!
# The Playback Target

A `Playback` answers the access cycles it sees with a recorded list of responses, in order,
and is never ready once they are used up. In every other cycle it drives all its wires high:
a master must not look at them then, and against this target one that does goes wrong at once.
-/

namespace BusScript.Bus

/-- A target that plays recorded responses, soonest first. -/
structure Playback where
  responses : List Response
  deriving DecidableEq, Repr

namespace Playback

/-- One cycle: the next response in an access cycle, noise in any other. -/
def respond (p : Playback) (r : Request) : Response × Playback :=
  if r.isAccess then
    match p.responses with
    | [] => (.wait, p)
    | answer :: rest => (answer, ⟨rest⟩)
  else (⟨BitVec.allOnes 32, true, true⟩, p)

instance : Target Playback := ⟨respond⟩

end Playback

end BusScript.Bus
